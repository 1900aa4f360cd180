import SqlFront.Proofs.Moves
import SqlFront.Proofs.Rules

/-! # Readings follow the rules

Every reading of the grammar takes in what its rule allows. Main statement: a property of rows of
tokens and trees that the rules of expressions and queries keep holds of everything that is read as
an expression or query, however deep.
-/

namespace SqlFront

namespace Reading

variable {α β σ : Type}

/-- Whenever the reading succeeds, the rule holds of what it has moved over and its value. -/
def Takes (p : Reading α) (R : Rule α) : Prop :=
  ∀ ⦃c a d⦄, p c = (.ok a, d) → ∃ ks, c.Moves ks d ∧ R ks a

theorem Takes.weaken {p : Reading α} {R S : Rule α} (h : p.Takes R) (hS : ∀ ks a, R ks a → S ks a) :
    p.Takes S := by
  intro c a d hp
  obtain ⟨ks, hm, hR⟩ := h hp
  exact ⟨ks, hm, hS ks a hR⟩

/-- A loop takes in what `going` says of the row so far, if every step that goes on keeps it, and what
    `ready` says in the end. -/
theorem iterate_takes {step : σ → Reading (ForInStep σ)} (going ready : Rule σ)
    (hstep : ∀ ks s c turn d, going ks s → step s c = (.ok turn, d) → ∃ ks', c.Moves ks' d ∧
      match turn with
      | .yield t => going (ks ++ ks') t
      | .done t => ready (ks ++ ks') t)
    (hready : ∀ ks s, going ks s → ready ks s)
    (ks : List Token.Kind) {s : σ} (hs : going ks s) :
    (iterate step s).Takes fun ks' t => ready (ks ++ ks') t := by
  intro c t d h
  change iterateAtMost step (c.ahead.length + 1) s c = _ at h
  generalize c.ahead.length + 1 = limit at h
  induction limit generalizing ks s c with
  | zero =>
    obtain ⟨rfl, rfl⟩ := pure_ok.mp h
    exact ⟨[], .refl c, by simpa using hready ks s hs⟩
  | succ limit ih =>
    obtain ⟨turn, e, hturn, h⟩ := bind_ok.mp h
    obtain ⟨ks', hm, hu⟩ := hstep ks s c turn e hs hturn
    cases turn with
    | done u =>
      obtain ⟨rfl, rfl⟩ := pure_ok.mp h
      exact ⟨ks', hm, hu⟩
    | yield u =>
      obtain ⟨ks'', hm', ht⟩ := ih _ hu h
      exact ⟨ks' ++ ks'', hm.trans hm', by simpa using ht⟩

theorem commaList_takes {item : Reading α} {R : Rule α} (hitem : item.Takes R) :
    (commaList item).Takes (Rule.Listed R) := by
  intro c as f h
  obtain ⟨a, d, ha, h⟩ := bind_ok.mp h
  obtain ⟨ks, hm, hR⟩ := hitem ha
  refine (iterate_takes (Rule.Listed R) (Rule.Listed R) ?_ (fun _ _ h => h) _ (.one hR) h).elim
    fun ks' ⟨hm', hall⟩ => ⟨ks ++ ks', hm.trans hm', hall⟩
  intro ks as c turn d hl hstep
  simp only [↓acceptSymbol_ite, bind_ok, pure_ok] at hstep
  obtain ⟨e, hc, b, f, hb, rfl, rfl⟩ | ⟨-, rfl, rfl⟩ := hstep
  · obtain ⟨ks', hm', hR'⟩ := hitem hb
    exact ⟨_, hc.trans hm', .more hl hR'⟩
  · exact ⟨[], .refl c, by simpa using hl⟩

theorem acceptWord_takes {word : String} : (acceptWord word).Takes (Rule.Flag word) := by
  intro c b d h
  obtain ⟨rfl, text, hword, hm⟩ | ⟨rfl, -, rfl⟩ := acceptWord_ok.mp h
  · exact ⟨_, hm, .present (.mk hword)⟩
  · exact ⟨[], .refl c, .absent⟩

end Reading

/-- The parts are read as their rules allow. -/
structure Readers.Follow (part : Readers) (rules : Rules) : Prop where
  expression : ∀ power, (part.expression power).Takes (rules.expression power)
  query : part.query.Takes rules.query

/-- Every reading moves over something, of which nothing need be said. -/
theorem Readers.follow_trivial (part : Readers) :
    part.Follow ⟨fun _ _ _ => True, fun _ _ => True⟩ where
  expression power c e d h := by
    obtain ⟨ks, hm⟩ := (part.expression power).moves c
    rw [h] at hm
    exact ⟨ks, hm, trivial⟩
  query c q d h := by
    obtain ⟨ks, hm⟩ := part.query.moves c
    rw [h] at hm
    exact ⟨ks, hm, trivial⟩

namespace Grammar

open Reading Cursor

section

variable {registry : Registry} {part : Readers} {rules : Rules} (hpart : part.Follow rules)

include hpart

theorem enclosedQuery_takes : (enclosedQuery part).Takes (Rule.Enclosed rules.query) := by
  intro c q d h
  simp only [enclosedQuery, bind_ok, symbol_ok, pure_ok] at h
  obtain ⟨-, d, h₁, q, e, h₂, -, f, h₃, rfl, rfl⟩ := h
  obtain ⟨ks, hm, hR⟩ := hpart.query h₂
  exact ⟨_, (h₁.trans hm).trans h₃, .mk hR⟩

theorem expressions_takes : (expressions part).Takes (Rule.Listed (rules.expression 0)) :=
  commaList_takes (hpart.expression 0)

theorem argument_takes : (argument part).Takes (Rule.Argument rules) := by
  intro c e d h
  simp only [argument, acceptSymbol_bind, ↓reduceIte, Bool.false_eq_true, pure_ok] at h
  obtain ⟨d, h₁, rfl, rfl⟩ | ⟨-, h⟩ := h
  · exact ⟨_, h₁, .all⟩
  · obtain ⟨ks, hm, hR⟩ := hpart.expression 0 h
    exact ⟨ks, hm, .expression hR⟩

theorem enclosed_takes : (enclosed part).Takes (Rule.Primary registry rules) := by
  intro c e d h
  simp only [enclosed, nextKind_bind] at h
  split at h
  · obtain ⟨q, d, h₁, h⟩ := bind_ok.mp h
    obtain ⟨rfl, rfl⟩ := pure_ok.mp h
    obtain ⟨ks, hm, hR⟩ := enclosedQuery_takes hpart h₁
    exact ⟨ks, hm, .subquery hR⟩
  · simp only [bind_ok, symbol_ok] at h
    obtain ⟨-, d, h₁, items, e, h₂, -, f, h₃, h⟩ := h
    obtain ⟨ks, hm, hR⟩ := expressions_takes hpart h₂
    have hmove := (h₁.trans hm).trans h₃
    have hitems := Rule.Enclosed.mk hR
    split at h
    · obtain ⟨rfl, rfl⟩ := pure_ok.mp h
      exact ⟨_, hmove, .group hitems⟩
    · obtain ⟨rfl, rfl⟩ := pure_ok.mp h
      exact ⟨_, hmove, .list hitems (hR.two_le ‹_›)⟩

omit hpart in
theorem columnRest_takes (first : String) :
    (columnRest first).Takes fun ks e => ∃ t, e = .column t ∧ Rule.Column (.name first :: ks) t := by
  intro c e d h
  obtain ⟨t, d, h₁, h₂⟩ := bind_ok.mp h
  obtain ⟨rfl, rfl⟩ := pure_ok.mp h₂
  refine (iterate_takes Rule.Dotted Rule.Column ?_ (fun _ _ => .dotted) _ .one h₁).elim
    fun ks ⟨hm, hcolumn⟩ => ⟨ks, hm, t, rfl, hcolumn⟩
  intro ks t c turn d hdotted h
  simp only [↓acceptSymbol_ite, bind_ok, name_ok, pure_ok] at h
  obtain ⟨e, h₁, ⟨f, h₂, rfl, rfl⟩ | ⟨-, n, f, h₂, rfl, rfl⟩⟩ | ⟨-, rfl, rfl⟩ := h
  · exact ⟨_, h₁.trans h₂, .all hdotted⟩
  · exact ⟨_, h₁.trans h₂, .more hdotted⟩
  · exact ⟨[], .refl c, by simpa using .dotted hdotted⟩

theorem arguments_takes : (arguments part).Takes (Rule.Arguments rules) := by
  intro c args d h
  rw [arguments, kind_bind] at h
  split at h
  · obtain ⟨rfl, rfl⟩ := pure_ok.mp h
    exact ⟨[], .refl c, .none⟩
  · obtain ⟨ks, hm, hR⟩ := commaList_takes (argument_takes hpart) h
    exact ⟨ks, hm, .some hR⟩

theorem callRest_takes (name : String) (place : Span) :
    (callRest registry part name place).Takes fun ks e =>
      Rule.Primary registry rules (.name name :: ks) e := by
  intro c a f h
  rw [callRest] at h
  split at h
  · exact absurd h (by simp [failAt_ok])
  · rename_i arity harity
    simp only [bind_ok, symbol_ok] at h
    obtain ⟨_, d, h₁, args, e, h₂, _, f, h₃, h⟩ := h
    obtain ⟨ks, hm, hR⟩ := arguments_takes hpart h₂
    split at h
    · rename_i haccepts
      obtain ⟨rfl, rfl⟩ := pure_ok.mp h
      exact ⟨_, (h₁.trans hm).trans h₃, .call harity (.mk hR) haccepts⟩
    · exact absurd h (by simp [lastSpan_bind, failAt_ok])

theorem primary_takes : (primary registry part).Takes (Rule.Primary registry rules) := by
  intro c e d h
  rw [primary, kind_bind] at h
  split at h
  · obtain ⟨rfl, rfl⟩ := pure_ok.mp h
    exact ⟨_, current_moves ‹_› (by simp), .number⟩
  · obtain ⟨rfl, rfl⟩ := pure_ok.mp h
    exact ⟨_, current_moves ‹_› (by simp), .string⟩
  · obtain ⟨rfl, rfl⟩ := pure_ok.mp h
    exact ⟨_, current_moves ‹_› (by simp), .null⟩
  · obtain ⟨rfl, rfl⟩ := pure_ok.mp h
    exact ⟨_, current_moves ‹_› (by simp), .placeholder⟩
  · rw [advance_bind] at h
    obtain ⟨q, d, h₁, h₂⟩ := bind_ok.mp h
    obtain ⟨rfl, rfl⟩ := pure_ok.mp h₂
    obtain ⟨ks, hm, hR⟩ := enclosedQuery_takes hpart h₁
    exact ⟨_, (current_moves ‹_› (by simp)).trans hm, .exists hR⟩
  · exact enclosed_takes hpart h
  · rename_i text hkind
    have hname := current_moves hkind (by simp)
    rw [span_bind, advance_bind, kind_bind] at h
    split at h
    · obtain ⟨ks, hm, hR⟩ := callRest_takes hpart text _ h
      exact ⟨_, hname.trans hm, hR⟩
    · obtain ⟨ks, hm, t, rfl, hcolumn⟩ := columnRest_takes text h
      exact ⟨_, hname.trans hm, .column hcolumn⟩
  · exact absurd h (by simp [unexpected_ok])

theorem operand_takes : (operand registry part).Takes (Rule.Operand registry rules) := by
  intro c e d h
  rw [operand, kind_bind] at h
  split at h
  · rw [advance_bind] at h
    obtain ⟨a, d, h₁, h₂⟩ := bind_ok.mp h
    obtain ⟨rfl, rfl⟩ := pure_ok.mp h₂
    obtain ⟨ks, hm, hR⟩ := hpart.expression _ h₁
    exact ⟨_, (current_moves ‹_› (by simp)).trans hm, .not hR⟩
  · rw [advance_bind] at h
    obtain ⟨a, d, h₁, h₂⟩ := bind_ok.mp h
    obtain ⟨rfl, rfl⟩ := pure_ok.mp h₂
    obtain ⟨ks, hm, hR⟩ := hpart.expression _ h₁
    exact ⟨_, (current_moves ‹_› (by simp)).trans hm, .minus hR⟩
  · rw [advance_bind] at h
    obtain ⟨ks, hm, hR⟩ := hpart.expression _ h
    exact ⟨_, (current_moves ‹_› (by simp)).trans hm, .plus hR⟩
  · obtain ⟨ks, hm, hR⟩ := primary_takes hpart h
    exact ⟨ks, hm, .primary hR⟩

theorem comparand_takes (power : Nat) : (comparand part power).Takes (Rule.Comparand rules power) := by
  intro c e f h
  rw [comparand, kind_bind] at h
  have hquantified {word operator} (hword : Rule.Quantifier word operator)
      (hkind : c.current.kind = .keyword word)
      (h : (do
        advance
        return .unary operator (.query (← enclosedQuery part)) : Reading Expr) c = (.ok e, f)) :
      ∃ ks, c.Moves ks f ∧ Rule.Comparand rules power ks e := by
    rw [advance_bind] at h
    obtain ⟨q, d, h₁, h₂⟩ := bind_ok.mp h
    obtain ⟨rfl, rfl⟩ := pure_ok.mp h₂
    obtain ⟨ks, hm, hR⟩ := enclosedQuery_takes hpart h₁
    exact ⟨_, (current_moves hkind (by simp)).trans hm, .quantified hword hR⟩
  split at h
  · exact hquantified .any ‹_› h
  · exact hquantified .all ‹_› h
  · exact hquantified .some ‹_› h
  · obtain ⟨ks, hm, hR⟩ := hpart.expression power h
    exact ⟨ks, hm, .expression hR⟩

theorem candidates_takes : (candidates part).Takes (Rule.Candidates rules) := by
  intro c es d h
  rw [candidates, kind_bind] at h
  split at h
  · obtain ⟨q, e, h₁, h₂⟩ := bind_ok.mp h
    obtain ⟨rfl, rfl⟩ := pure_ok.mp h₂
    obtain ⟨ks, hm, hR⟩ := hpart.query h₁
    exact ⟨ks, hm, .subquery hR⟩
  · obtain ⟨ks, hm, hR⟩ := expressions_takes hpart h
    exact ⟨ks, hm, .list hR⟩

theorem testOf_takes {left : Expr} {negated : Bool} {c d e : Cursor} {not : List Token.Kind}
    {tree : Expr} (hnot : c.Moves not d)
    (hchosen : ∀ plain negative,
      Rule.Negation plain negative not (if negated then negative else plain))
    (h : testOf part left negated d = (.ok tree, e)) :
    ∃ ks, c.Moves ks e ∧ Rule.Test rules left ks tree := by
  rw [testOf, kind_bind] at h
  split at h
  · have hword := hnot.trans (current_moves ‹_› (by simp))
    simp only [advance_bind, bind_ok, keyword_ok, pure_ok] at h
    obtain ⟨low, e, h₁, _, f, h₂, high, g, h₃, rfl, rfl⟩ := h
    obtain ⟨ks, hlow, hR⟩ := hpart.expression _ h₁
    obtain ⟨ks', hhigh, hR'⟩ := hpart.expression _ h₃
    exact ⟨_, by simpa using ((hword.trans hlow).trans h₂).trans hhigh, .between (hchosen _ _) hR hR'⟩
  · have hword := hnot.trans (current_moves ‹_› (by simp))
    simp only [advance_bind, bind_ok, pure_ok] at h
    obtain ⟨pattern, e, h₁, rfl, rfl⟩ := h
    obtain ⟨ks, hm, hR⟩ := hpart.expression _ h₁
    exact ⟨_, by simpa using hword.trans hm, .like (hchosen _ _) hR⟩
  · have hword := hnot.trans (current_moves ‹_› (by simp))
    simp only [advance_bind, bind_ok, symbol_ok, pure_ok] at h
    obtain ⟨_, e, h₁, es, f, h₂, _, g, h₃, rfl, rfl⟩ := h
    obtain ⟨ks, hm, hR⟩ := candidates_takes hpart h₂
    exact ⟨_, by simpa using ((hword.trans h₁).trans hm).trans h₃, .membership (hchosen _ _) (.mk hR)⟩
  · exact absurd h (by simp [unexpected_ok])

theorem test_takes (left : Expr) : (test part left).Takes (Rule.Test rules left) := by
  intro c tree e h
  obtain ⟨negated, d, hnot, h⟩ := bind_ok.mp h
  obtain ⟨rfl, hm⟩ | ⟨rfl, -, rfl⟩ := acceptKeyword_ok.mp hnot
  · exact testOf_takes hpart hm (fun _ _ => .negative) h
  · exact testOf_takes hpart (.refl _) (fun _ _ => .plain) h

omit hpart in
theorem nullTest_takes {c f : Cursor} {left e : Expr} (hkind : c.current.kind = .keyword .is)
    (h : nullTest left c = (.ok e, f)) : ∃ ks, c.Moves ks f ∧ Rule.NullTest left ks e := by
  have his := current_moves hkind (by simp)
  rw [nullTest, advance_bind] at h
  simp only [↓acceptKeyword_bind, ↓reduceIte, Bool.false_eq_true, bind_ok, keyword_ok, pure_ok] at h
  obtain ⟨d, h₁, -, e, h₂, rfl, rfl⟩ | ⟨-, -, e, h₁, rfl, rfl⟩ := h
  · exact ⟨_, (his.trans h₁).trans h₂, .negative⟩
  · exact ⟨_, his.trans h₁, .plain⟩

theorem chainStep_takes {power : Nat} {chain : Chain} {turn : ForInStep Chain} {c d : Cursor}
    (h : chainStep part power chain c = (.ok turn, d)) :
    match turn with
    | .yield next => ∃ ks, c.Moves ks d ∧ Rule.Link rules power chain ks next
    | .done last => last = chain ∧ d = c := by
  rw [chainStep, kind_bind] at h
  split at h
  · obtain ⟨rfl, rfl⟩ := pure_ok.mp h
    exact ⟨rfl, rfl⟩
  · rename_i p hp
    split at h
    · obtain ⟨rfl, rfl⟩ := pure_ok.mp h
      exact ⟨rfl, rfl⟩
    · rename_i hpower
      have hpower := Nat.le_of_not_lt hpower
      have hmove := moves_advance (c := c) (by rintro heq; rw [heq] at hp; cases hp)
      split at h
      · rename_i hnull
        obtain ⟨e, d, h₁, h₂⟩ := bind_ok.mp h
        obtain ⟨rfl, rfl⟩ := pure_ok.mp h₂
        obtain ⟨ks, hm, hR⟩ := nullTest_takes (Power.of?_nullTest hp hnull) h₁
        exact ⟨ks, hm, .nullTest hR⟩
      · obtain ⟨e, d, h₁, h₂⟩ := bind_ok.mp h
        obtain ⟨rfl, rfl⟩ := pure_ok.mp h₂
        obtain ⟨ks, hm, hR⟩ := test_takes hpart _ h₁
        exact ⟨ks, hm, .test hR⟩
      · rename_i operator hcomparison
        split at h
        · exact absurd h (by simp [span_bind, failAt_ok])
        · rename_i hcompared
          rw [advance_bind] at h
          obtain ⟨e, d, h₁, h₂⟩ := bind_ok.mp h
          obtain ⟨rfl, rfl⟩ := pure_ok.mp h₂
          obtain ⟨ks, hm, hR⟩ := comparand_takes hpart _ h₁
          exact ⟨_, hmove.trans hm, .comparison hp hpower hcomparison (by simpa using hcompared) hR⟩
      · rename_i operator hchain
        rw [advance_bind] at h
        obtain ⟨e, d, h₁, h₂⟩ := bind_ok.mp h
        obtain ⟨rfl, rfl⟩ := pure_ok.mp h₂
        obtain ⟨ks, hm, hR⟩ := hpart.expression _ h₁
        exact ⟨_, hmove.trans hm, .chain hp hpower hchain hR⟩

theorem expression_takes (power : Nat) :
    (expression registry part power).Takes (Rule.Expression registry rules power) := by
  intro c e f h
  obtain ⟨first, d, h₁, h⟩ := bind_ok.mp h
  obtain ⟨chain, f, h₂, h₃⟩ := bind_ok.mp h
  obtain ⟨rfl, rfl⟩ := pure_ok.mp h₃
  obtain ⟨ks, hm, hfirst⟩ := operand_takes hpart h₁
  refine (iterate_takes (Rule.Links rules power ⟨first, none, false⟩)
    (Rule.Links rules power ⟨first, none, false⟩) ?_ (fun _ _ h => h) _ .none h₂).elim
    fun ks' ⟨hm', hlinks⟩ => ⟨_, hm.trans hm', .mk hfirst hlinks⟩
  intro ks chain c turn d hlinks hstep
  have hturn := chainStep_takes hpart hstep
  cases turn with
  | yield next =>
    obtain ⟨ks', hm, hlink⟩ := hturn
    exact ⟨ks', hm, .more hlinks hlink⟩
  | done last =>
    obtain ⟨rfl, rfl⟩ := hturn
    exact ⟨[], .refl _, by simpa using hlinks⟩

end

theorem dottedName_takes : dottedName.Takes Rule.Dotted := by
  intro c t f h
  obtain ⟨first, d, h₁, h⟩ := bind_ok.mp h
  refine (iterate_takes Rule.Dotted Rule.Dotted ?_ (fun _ _ h => h) _ .one h).elim
    fun ks ⟨hm, hdotted⟩ => ⟨_, (name_ok.mp h₁).trans hm, hdotted⟩
  intro ks t c turn d hdotted h
  simp only [↓acceptSymbol_ite, bind_ok, name_ok, pure_ok] at h
  obtain ⟨e, h₁, n, f, h₂, rfl, rfl⟩ | ⟨-, rfl, rfl⟩ := h
  · exact ⟨_, h₁.trans h₂, .more hdotted⟩
  · exact ⟨[], .refl c, by simpa using hdotted⟩

theorem name?_takes : name?.Takes (Rule.Optional Rule.Name) := by
  intro c a f h
  rw [name?, kind_bind] at h
  split at h
  · obtain ⟨rfl, rfl⟩ := pure_ok.mp h
    exact ⟨_, current_moves ‹_› (by simp), .present .mk⟩
  · obtain ⟨rfl, rfl⟩ := pure_ok.mp h
    exact ⟨[], .refl c, .absent⟩

theorem optionalAlias_takes : optionalAlias.Takes (Rule.Optional Rule.Alias) := by
  intro c a f h
  rw [optionalAlias] at h
  simp only [↓acceptKeyword_ite, bind_ok, name_ok, pure_ok] at h
  obtain ⟨d, h₁, n, e, h₂, rfl, rfl⟩ | ⟨-, h⟩ := h
  · exact ⟨_, h₁.trans h₂, .present .as⟩
  · obtain ⟨ks, hm, hR⟩ := name?_takes h
    cases hR with
    | absent => exact ⟨_, hm, .absent⟩
    | present hR => cases hR; exact ⟨_, hm, .present .bare⟩

theorem source_takes : source.Takes Rule.Source := by
  intro c q f h
  simp only [source, bind_ok] at h
  obtain ⟨t, d, h₁, a, e, h₂, h⟩ := h
  obtain ⟨ks, hm, hR⟩ := dottedName_takes h₁
  obtain ⟨ks', hm', hR'⟩ := optionalAlias_takes h₂
  have hsource := Rule.Source.mk hR hR'
  split at h <;> obtain ⟨rfl, rfl⟩ := pure_ok.mp h <;> exact ⟨_, hm.trans hm', hsource⟩

theorem setOperator?_takes {c d : Cursor} {o : Option String} (h : setOperator? c = (.ok o, d)) :
    match o with
    | some operator => ∃ ks, c.Moves ks d ∧ Rule.SetOperator ks operator
    | none => d = c := by
  rw [setOperator?, kind_bind] at h
  split at h
  · rw [advance_bind] at h
    have hunion := current_moves ‹_› (by simp)
    simp only [acceptKeyword_ite, pure_ok] at h
    obtain ⟨e, h₁, rfl, rfl⟩ | ⟨-, rfl, rfl⟩ := h
    · exact ⟨_, hunion.trans h₁, .unionAll⟩
    · exact ⟨_, hunion, .union⟩
  · obtain ⟨rfl, rfl⟩ := pure_ok.mp h
    exact ⟨_, current_moves ‹_› (by simp), .intersect⟩
  · obtain ⟨rfl, rfl⟩ := pure_ok.mp h
    exact ⟨_, current_moves ‹_› (by simp), .minus⟩
  · obtain ⟨rfl, rfl⟩ := pure_ok.mp h
    exact ⟨_, current_moves ‹_› (by simp), .except⟩
  · obtain ⟨rfl, rfl⟩ := pure_ok.mp h
    rfl

theorem forUpdate_takes : forUpdate.Takes Rule.ForUpdate := by
  intro c b f h
  rw [forUpdate] at h
  simp only [↓acceptKeyword_ite, bind_ok, keyword_ok, pure_ok] at h
  obtain ⟨d, h₁, -, e, h₂, rfl, rfl⟩ | ⟨-, rfl, rfl⟩ := h
  · exact ⟨_, h₁.trans h₂, .some⟩
  · exact ⟨[], .refl c, .none⟩

section

variable {registry : Registry} {part : Readers} {rules : Rules} (hpart : part.Follow rules)

include hpart

theorem selectItem_takes : (selectItem registry part).Takes (Rule.Item registry rules) := by
  intro c item f h
  rw [selectItem] at h
  simp only [↓acceptSymbol_ite, bind_ok, pure_ok] at h
  obtain ⟨d, h₁, rfl, rfl⟩ | ⟨-, e, d, h₁, a, e', h₂, h⟩ := h
  · exact ⟨_, h₁, .all⟩
  · obtain ⟨ks, hm, hR⟩ := hpart.expression 0 h₁
    obtain ⟨ks', hm', hR'⟩ := optionalAlias_takes h₂
    have hitem : Rule.Item registry rules _ _ := .expression hR hR'
    split at h <;> obtain ⟨rfl, rfl⟩ := pure_ok.mp h <;> exact ⟨_, hm.trans hm', hitem⟩

theorem clause?_takes (word : Keyword) :
    (clause? part word).Takes (Rule.Optional (Rule.Condition rules word)) := by
  intro c o f h
  rw [clause?] at h
  simp only [↓acceptKeyword_ite, bind_ok, pure_ok] at h
  obtain ⟨d, h₁, e, f, h₂, rfl, rfl⟩ | ⟨-, rfl, rfl⟩ := h
  · obtain ⟨ks, hm, hR⟩ := hpart.expression 0 h₂
    exact ⟨_, h₁.trans hm, .present (.mk hR)⟩
  · exact ⟨[], .refl c, .absent⟩

theorem groupBy?_takes : (groupBy? part).Takes (Rule.Optional (Rule.Group rules)) := by
  intro c o d h
  rw [groupBy?] at h
  simp only [↓acceptKeyword_ite, bind_ok, keyword_ok, pure_ok] at h
  obtain ⟨c₁, h₁, _, c₂, h₂, es, c₃, h₃, having, c₄, h₄, rfl, rfl⟩ | ⟨-, rfl, rfl⟩ := h
  · obtain ⟨ks, hm, hR⟩ := expressions_takes hpart h₃
    obtain ⟨ks', hm', hR'⟩ := clause?_takes hpart .having h₄
    exact ⟨_, by simpa using ((h₁.trans h₂).trans hm).trans hm', .present (.mk hR hR')⟩
  · exact ⟨[], .refl c, .absent⟩

theorem joinedQuery_takes {c d : Cursor} {q : Query Expr} (h : joinedQuery part c = (.ok q, d)) :
    ∃ ks, c.Moves ks d ∧ (Rule.Enclosed rules.query ks q ∨ rules.query ks q) := by
  rw [joinedQuery, kind_bind] at h
  split at h
  · obtain ⟨ks, hm, hR⟩ := enclosedQuery_takes hpart h
    exact ⟨ks, hm, .inl hR⟩
  · obtain ⟨ks, hm, hR⟩ := hpart.query h
    exact ⟨ks, hm, .inr hR⟩

theorem setOperation?_takes :
    (setOperation? part).Takes (Rule.Optional (Rule.SetOperation rules)) := by
  intro c o f h
  obtain ⟨operator, d, h₁, h⟩ := bind_ok.mp h
  have hoperator := setOperator?_takes h₁
  cases operator with
  | none =>
    obtain ⟨rfl, rfl⟩ := pure_ok.mp h
    rw [hoperator]
    exact ⟨[], .refl c, .absent⟩
  | some operator =>
    obtain ⟨ks, hm, hR⟩ := hoperator
    obtain ⟨q, e, h₂, h₃⟩ := bind_ok.mp h
    obtain ⟨rfl, rfl⟩ := pure_ok.mp h₃
    obtain ⟨ks', hm', hR' | hR'⟩ := joinedQuery_takes hpart h₂
    · exact ⟨_, hm.trans hm', .present (.enclosed hR hR')⟩
    · exact ⟨_, hm.trans hm', .present (.bare hR hR')⟩

theorem orderEntry_takes : (orderEntry part).Takes (Rule.Entry rules) := by
  intro c entry f h
  rw [orderEntry] at h
  simp only [↓acceptKeyword_ite, bind_ok, discard_ok, acceptKeyword_ok, pure_ok] at h
  obtain ⟨e, d, h₁, h⟩ := h
  obtain ⟨ks, hm, hR⟩ := hpart.expression 0 h₁
  obtain ⟨d, h₂, rfl, rfl⟩ | ⟨-, -, d, ⟨b, ⟨-, h₂⟩ | ⟨-, -, rfl⟩⟩, rfl, rfl⟩ := h
  · exact ⟨_, hm.trans h₂, .mk hR .desc⟩
  · exact ⟨_, hm.trans h₂, .mk hR .asc⟩
  · exact ⟨_, by simpa using hm, .mk hR .ascending⟩

theorem orderBy_takes : (orderBy part).Takes (Rule.Order rules) := by
  intro c entries f h
  rw [orderBy] at h
  simp only [↓acceptKeyword_ite, bind_ok, keyword_ok, pure_ok] at h
  obtain ⟨d, h₁, -, e, h₂, h⟩ | ⟨-, rfl, rfl⟩ := h
  · obtain ⟨ks, hm, hR⟩ := commaList_takes (orderEntry_takes hpart) h
    exact ⟨_, (h₁.trans h₂).trans hm, .some hR⟩
  · exact ⟨[], .refl c, .none⟩

omit hpart in
theorem distinct_takes : distinct.Takes Rule.Distinct := by
  intro c b f h
  rw [distinct] at h
  simp only [↓acceptKeyword_ite, bind_ok, discard_ok, acceptKeyword_ok, pure_ok] at h
  obtain ⟨d, h₁, rfl, rfl⟩ | ⟨-, _, d, ⟨b, ⟨-, h₁⟩ | ⟨-, -, rfl⟩⟩, rfl, rfl⟩ := h
  · exact ⟨_, h₁, .distinct⟩
  · exact ⟨_, h₁, .all⟩
  · exact ⟨[], .refl c, .none⟩

theorem query_takes : (query registry part).Takes (Rule.Select registry rules) := by
  intro c q f h
  simp only [query, bind_ok, keyword_ok, pure_ok] at h
  obtain ⟨_, c₁, hselect, distinct, c₂, h₁, items, c₃, h₂, _, c₄, hfrom, sources, c₅, h₃, condition,
    c₆, h₄, group, c₇, h₅, set, c₈, h₆, order, c₉, h₇, lock, c₁₀, h₈, rfl, rfl⟩ := h
  obtain ⟨_, m₁, r₁⟩ := distinct_takes h₁
  obtain ⟨_, m₂, r₂⟩ := commaList_takes (selectItem_takes hpart) h₂
  obtain ⟨_, m₃, r₃⟩ := commaList_takes source_takes h₃
  obtain ⟨_, m₄, r₄⟩ := clause?_takes hpart .where h₄
  obtain ⟨_, m₅, r₅⟩ := groupBy?_takes hpart h₅
  obtain ⟨_, m₆, r₆⟩ := setOperation?_takes hpart h₆
  obtain ⟨_, m₇, r₇⟩ := orderBy_takes hpart h₇
  obtain ⟨_, m₈, r₈⟩ := forUpdate_takes h₈
  have hmove := (((((((((hselect.trans m₁).trans m₂).trans hfrom).trans m₃).trans m₄).trans m₅).trans
    m₆).trans m₇).trans m₈)
  exact ⟨_, by simpa using hmove, .mk r₁ r₂ r₃ r₄ r₅ r₆ r₇ r₈⟩

end

section

variable {registry : Registry} {rules : Rules} (hparts : (readers registry).Follow rules)

theorem insertColumns?_takes :
    insertColumns?.Takes (Rule.Optional (Rule.Enclosed (Rule.Listed Rule.Dotted))) := by
  intro c o d h
  rw [insertColumns?, kind_bind] at h
  split at h
  · rw [nextKind_bind] at h
    split at h
    · obtain ⟨rfl, rfl⟩ := pure_ok.mp h
      exact ⟨[], .refl c, .absent⟩
    · simp only [advance_bind, bind_ok, symbol_ok, pure_ok] at h
      obtain ⟨columns, c₁, h₁, _, c₂, h₂, rfl, rfl⟩ := h
      obtain ⟨ks, hm, hR⟩ := commaList_takes dottedName_takes h₁
      exact ⟨_, ((current_moves ‹_› (by simp)).trans hm).trans h₂, .present (.mk hR)⟩
  · obtain ⟨rfl, rfl⟩ := pure_ok.mp h
    exact ⟨[], .refl c, .absent⟩

theorem lockMode_takes : lockMode.Takes Rule.Mode := by
  intro c mode d h
  rw [lockMode] at h
  simp only [↓acceptWord_ite, ↓acceptKeyword_ite, bind_ok, word_ok, pure_ok, unexpected_ok] at h
  obtain ⟨w, c₁, hw, m₁, h⟩ | ⟨-, ⟨w, c₁, hw, m₁, h⟩ | ⟨-, ⟨w, c₁, hw, m₁, rfl, rfl⟩ | ⟨-, h⟩⟩⟩ := h
  · obtain ⟨w', c₂, hw', m₂, rfl, rfl⟩ | ⟨-, _, c₂, ⟨w', hw', m₂⟩, rfl, rfl⟩ := h
    · exact ⟨_, m₁.trans m₂, .rowShare (.mk hw) (.mk hw')⟩
    · exact ⟨_, m₁.trans m₂, .rowExclusive (.mk hw) (.mk hw')⟩
  · obtain ⟨c₂, m₂, rfl, rfl⟩ | ⟨-, ⟨w', c₂, hw', m₂, _, c₃, ⟨w'', hw'', m₃⟩, rfl, rfl⟩ |
      ⟨-, rfl, rfl⟩⟩ := h
    · exact ⟨_, m₁.trans m₂, .shareUpdate (.mk hw)⟩
    · exact ⟨_, (m₁.trans m₂).trans m₃, .shareRowExclusive (.mk hw) (.mk hw') (.mk hw'')⟩
    · exact ⟨_, m₁, .share (.mk hw)⟩
  · exact ⟨_, m₁, .exclusive (.mk hw)⟩
  · exact h.elim

theorem lock_takes : lock.Takes Rule.Locking := by
  intro c l d h
  simp only [lock, bind_ok, word_ok, keyword_ok, pure_ok] at h
  obtain ⟨_, c₁, ⟨w, hw, m₁⟩, _, c₂, ⟨w', hw', m₂⟩, tables, c₃, h₃, _, c₄, m₄, mode, c₅, h₅, _, c₆,
    ⟨w'', hw'', m₆⟩, nowait, c₇, h₇, rfl, rfl⟩ := h
  obtain ⟨_, m₃, r₃⟩ := commaList_takes dottedName_takes h₃
  obtain ⟨_, m₅, r₅⟩ := lockMode_takes h₅
  obtain ⟨_, m₇, r₇⟩ := acceptWord_takes h₇
  exact ⟨_, by simpa using (((((m₁.trans m₂).trans m₃).trans m₄).trans m₅).trans m₆).trans m₇,
    .mk (.mk hw) (.mk hw') r₃ r₅ (.mk hw'') r₇⟩

theorem ending_takes {c d : Cursor} {t : Transaction} (h : ending c = (.ok t, d)) :
    ∃ word ks, c.Moves ks d ∧ Rule.Word word ks ∧
      (word = "COMMIT" ∧ t = Transaction.commit ∨ word = "ROLLBACK" ∧ t = Transaction.rollback) := by
  rw [ending] at h
  simp only [↓acceptWord_ite, bind_ok, word_ok, pure_ok] at h
  obtain ⟨w, c₁, hw, m₁, rfl, rfl⟩ | ⟨-, _, c₁, ⟨w, hw, m₁⟩, rfl, rfl⟩ := h
  · exact ⟨_, _, m₁, .mk hw, .inl ⟨rfl, rfl⟩⟩
  · exact ⟨_, _, m₁, .mk hw, .inr ⟨rfl, rfl⟩⟩

theorem comment?_takes : comment?.Takes (Rule.Optional Rule.Comment) := by
  intro c o d h
  rw [comment?] at h
  simp only [↓acceptWord_ite, pure_ok] at h
  obtain ⟨w, c₁, hw, m₁, h⟩ | ⟨-, rfl, rfl⟩ := h
  · rw [kind_bind] at h
    split at h
    · obtain ⟨rfl, rfl⟩ := pure_ok.mp h
      exact ⟨_, m₁.trans (current_moves ‹_› (by simp)), .present (.mk (.mk hw))⟩
    · exact absurd h (by simp [unexpected_ok])
  · exact ⟨[], .refl c, .absent⟩

theorem endTransaction_takes : endTransaction.Takes Rule.Ending := by
  intro c t d h
  simp only [endTransaction, bind_ok, discard_ok, pure_ok] at h
  obtain ⟨e, c₁, h₁, _, c₂, ⟨b, h₂⟩, comment, c₃, h₃, rfl, rfl⟩ := h
  obtain ⟨_, _, m₁, hword, h⟩ := ending_takes h₁
  obtain ⟨_, m₂, r₂⟩ := acceptWord_takes h₂
  obtain ⟨_, m₃, r₃⟩ := comment?_takes h₃
  obtain ⟨rfl, rfl⟩ | ⟨rfl, rfl⟩ := h
  · exact ⟨_, (m₁.trans m₂).trans m₃, .commit hword r₂ r₃⟩
  · exact ⟨_, (m₁.trans m₂).trans m₃, .rollback hword r₂ r₃⟩

theorem setTransaction_takes : setTransaction.Takes Rule.Access := by
  intro c t d h
  rw [setTransaction] at h
  simp only [↓acceptWord_ite, bind_ok, keyword_ok, word_ok, pure_ok] at h
  obtain ⟨_, c₁, m₁, _, c₂, ⟨w, hw, m₂⟩, _, c₃, ⟨w', hw', m₃⟩, h⟩ := h
  have hm := (m₁.trans m₂).trans m₃
  obtain ⟨w'', c₄, hw'', m₄, rfl, rfl⟩ | ⟨-, _, c₄, ⟨w'', hw'', m₄⟩, rfl, rfl⟩ := h
  · exact ⟨_, by simpa using hm.trans m₄, .readOnly (.mk hw) (.mk hw') (.mk hw'')⟩
  · exact ⟨_, by simpa using hm.trans m₄, .readWrite (.mk hw) (.mk hw') (.mk hw'')⟩

include hparts

theorem insertSource_takes : (insertSource registry).Takes (Rule.Rows rules) := by
  intro c source d h
  rw [insertSource, kind_bind] at h
  split at h
  · simp only [advance_bind, bind_ok, symbol_ok, pure_ok] at h
    obtain ⟨_, c₁, h₁, values, c₂, h₂, _, c₃, h₃, rfl, rfl⟩ := h
    obtain ⟨ks, hm, hR⟩ := expressions_takes hparts h₂
    exact ⟨_, (((current_moves ‹_› (by simp)).trans h₁).trans hm).trans h₃, .values (.mk hR)⟩
  · obtain ⟨q, e, h₁, h₂⟩ := bind_ok.mp h
    obtain ⟨rfl, rfl⟩ := pure_ok.mp h₂
    obtain ⟨ks, hm, hR⟩ := hparts.query h₁
    exact ⟨ks, hm, .query hR⟩
  · obtain ⟨q, e, h₁, h₂⟩ := bind_ok.mp h
    obtain ⟨rfl, rfl⟩ := pure_ok.mp h₂
    obtain ⟨ks, hm, hR⟩ := enclosedQuery_takes hparts h₁
    exact ⟨ks, hm, .enclosed hR⟩
  · exact absurd h (by simp [unexpected_ok])

theorem insert_takes : (insert registry).Takes (Rule.Insertion rules) := by
  intro c i d h
  simp only [insert, bind_ok, keyword_ok, pure_ok] at h
  obtain ⟨_, c₁, m₁, _, c₂, m₂, table, c₃, h₃, columns, c₄, h₄, source, c₅, h₅, rfl, rfl⟩ := h
  obtain ⟨_, m₃, r₃⟩ := dottedName_takes h₃
  obtain ⟨_, m₄, r₄⟩ := insertColumns?_takes h₄
  obtain ⟨_, m₅, r₅⟩ := insertSource_takes hparts h₅
  exact ⟨_, by simpa using (((m₁.trans m₂).trans m₃).trans m₄).trans m₅, .mk r₃ r₄ r₅⟩

theorem assignment_takes : (assignment registry).Takes (Rule.Assignment rules) := by
  intro c a d h
  simp only [assignment, bind_ok, symbol_ok, pure_ok] at h
  obtain ⟨column, c₁, h₁, _, c₂, m₂, e, c₃, h₃, rfl, rfl⟩ := h
  obtain ⟨_, m₁, r₁⟩ := dottedName_takes h₁
  obtain ⟨_, m₃, r₃⟩ := hparts.expression 0 h₃
  exact ⟨_, by simpa using (m₁.trans m₂).trans m₃, .mk r₁ r₃⟩

theorem updateAsWritten_takes : (updateAsWritten registry).Takes (Rule.Change rules) := by
  intro c u d h
  simp only [updateAsWritten, bind_ok, keyword_ok, pure_ok] at h
  obtain ⟨_, c₁, m₁, table, c₂, h₂, aliasName, c₃, h₃, _, c₄, m₄, assignments, c₅, h₅, condition, c₆,
    h₆, rfl, rfl⟩ := h
  obtain ⟨_, m₂, r₂⟩ := dottedName_takes h₂
  obtain ⟨_, m₃, r₃⟩ := name?_takes h₃
  obtain ⟨_, m₅, r₅⟩ := commaList_takes (assignment_takes hparts) h₅
  obtain ⟨_, m₆, r₆⟩ := clause?_takes hparts .where h₆
  exact ⟨_, by simpa using ((((m₁.trans m₂).trans m₃).trans m₄).trans m₅).trans m₆,
    .mk r₂ r₃ r₅ r₆⟩

theorem delete_takes : (delete registry).Takes (Rule.Deletion rules) := by
  intro c t d h
  simp only [delete, bind_ok, keyword_ok, discard_ok, acceptKeyword_ok, pure_ok] at h
  obtain ⟨_, c₁, m₁, _, c₂, ⟨b, h₂⟩, table, c₃, h₃, condition, c₄, h₄, rfl, rfl⟩ := h
  obtain ⟨_, m₃, r₃⟩ := dottedName_takes h₃
  obtain ⟨_, m₄, r₄⟩ := clause?_takes hparts .where h₄
  obtain ⟨-, m₂⟩ | ⟨-, -, rfl⟩ := h₂
  · exact ⟨_, ((m₁.trans m₂).trans m₃).trans m₄, .mk (.present) r₃ r₄⟩
  · exact ⟨_, (m₁.trans m₃).trans m₄, .mk .absent r₃ r₄⟩

theorem statement_takes : (statement registry).Takes (Rule.Sentence rules) := by
  intro c s d h
  rw [statement, kind_bind] at h
  split at h
  · obtain ⟨q, e, h₁, h₂⟩ := bind_ok.mp h
    obtain ⟨rfl, rfl⟩ := pure_ok.mp h₂
    obtain ⟨ks, hm, hR⟩ := hparts.query h₁
    exact ⟨ks, hm, .query hR⟩
  · obtain ⟨i, e, h₁, h₂⟩ := bind_ok.mp h
    obtain ⟨rfl, rfl⟩ := pure_ok.mp h₂
    obtain ⟨ks, hm, hR⟩ := insert_takes hparts h₁
    exact ⟨ks, hm, .insert hR⟩
  · obtain ⟨u, e, h₁, h₂⟩ := bind_ok.mp h
    obtain ⟨rfl, rfl⟩ := pure_ok.mp h₂
    obtain ⟨v, f, h₃, h₄⟩ := bind_ok.mp h₁
    obtain ⟨rfl, rfl⟩ := pure_ok.mp h₄
    obtain ⟨ks, hm, hR⟩ := updateAsWritten_takes hparts h₃
    exact ⟨ks, hm, .update hR⟩
  · obtain ⟨t, e, h₁, h₂⟩ := bind_ok.mp h
    obtain ⟨rfl, rfl⟩ := pure_ok.mp h₂
    obtain ⟨ks, hm, hR⟩ := delete_takes hparts h₁
    exact ⟨ks, hm, .delete hR⟩
  · obtain ⟨t, e, h₁, h₂⟩ := bind_ok.mp h
    obtain ⟨rfl, rfl⟩ := pure_ok.mp h₂
    obtain ⟨ks, hm, hR⟩ := setTransaction_takes h₁
    exact ⟨ks, hm, .access hR⟩
  · split at h
    · obtain ⟨l, e, h₁, h₂⟩ := bind_ok.mp h
      obtain ⟨rfl, rfl⟩ := pure_ok.mp h₂
      obtain ⟨ks, hm, hR⟩ := lock_takes h₁
      exact ⟨ks, hm, .lock hR⟩
    · split at h
      · obtain ⟨t, e, h₁, h₂⟩ := bind_ok.mp h
        obtain ⟨rfl, rfl⟩ := pure_ok.mp h₂
        obtain ⟨ks, hm, hR⟩ := endTransaction_takes h₁
        exact ⟨ks, hm, .ending hR⟩
      · exact absurd h (by simp [unexpected_ok])

omit hparts in
theorem terminator_takes {c d : Cursor} {u : Unit} (h : terminator c = (.ok u, d)) :
    ∃ ks, c.Moves ks d ∧ Rule.Ended ks := by
  rw [terminator] at h
  simp only [↓acceptSymbol_ite, pure_ok, kind_bind] at h
  obtain ⟨e, h₁, -, rfl⟩ | ⟨-, h⟩ := h
  · exact ⟨_, h₁, .semicolon⟩
  · split at h
    · obtain ⟨-, rfl⟩ := pure_ok.mp h
      exact ⟨[], .refl c, .atEnd⟩
    · exact absurd h (by simp [unexpected_ok])

omit hparts in
theorem emptyStatements_takes : emptyStatements.Takes fun ks _ => ∀ k ∈ ks, k = .symbol .semicolon := by
  refine iterate_takes (fun ks _ => ∀ k ∈ ks, k = .symbol .semicolon) _ ?_ (fun _ _ h => h) []
    (by simp)
  intro ks _ c turn d hks h
  simp only [↓acceptSymbol_ite, pure_ok] at h
  obtain ⟨e, h₁, rfl, rfl⟩ | ⟨-, rfl, rfl⟩ := h
  · refine ⟨_, h₁, ?_⟩
    simpa [or_imp, forall_and] using hks
  · exact ⟨[], .refl c, by simpa using hks⟩

omit hparts in
/-- A next statement stands behind the empty ones and is terminated. -/
theorem statement?_parts {c d : Cursor} {s : Statement}
    (h : statement? registry c = (.ok (some s), d)) :
    ∃ c₁ c₂, emptyStatements c = (.ok (), c₁) ∧ statement registry c₁ = (.ok s, c₂) ∧
      terminator c₂ = (.ok (), d) := by
  obtain ⟨_, c₁, h₁, h⟩ := bind_ok.mp h
  rw [kind_bind] at h
  split at h
  · exact absurd h (by simp [pure_ok])
  · split at h
    · exact absurd h (by simp [bind_ok, pure_ok])
    · simp only [bind_ok, pure_ok, Option.some.injEq] at h
      obtain ⟨s, c₂, h₂, _, c₃, h₃, rfl, rfl⟩ := h
      exact ⟨c₁, c₂, h₁, h₂, h₃⟩

theorem statement?_takes {c d : Cursor} {s : Statement}
    (h : statement? registry c = (.ok (some s), d)) :
    ∃ ks, c.Moves ks d ∧ Rule.Next rules ks s := by
  obtain ⟨c₁, c₂, h₁, h₂, h₃⟩ := statement?_parts h
  obtain ⟨before, m₁, r₁⟩ := emptyStatements_takes h₁
  obtain ⟨ks, m₂, r₂⟩ := statement_takes hparts h₂
  obtain ⟨after, m₃, r₃⟩ := terminator_takes h₃
  exact ⟨_, (m₁.trans m₂).trans m₃, .mk r₁ r₂ r₃⟩

/-- Every statement of a text has been read from tokens of its own. -/
theorem statements_takes : (statements registry).Takes fun ks ss =>
    ∀ s ∈ ss, ∃ ks', (∀ k ∈ ks', k ∈ ks) ∧ Rule.Next rules ks' s := by
  refine iterate_takes (fun ks ss => ∀ s ∈ ss, ∃ ks', (∀ k ∈ ks', k ∈ ks) ∧
    Rule.Next rules ks' s) _ ?_ (fun _ _ h => h) [] (by simp)
  intro ks done c turn d hdone h
  obtain ⟨o, e, h₁, h⟩ := bind_ok.mp h
  obtain ⟨ks', hm⟩ := (statement? registry).moves c
  rw [h₁] at hm
  have hold (ks' : List Token.Kind) : ∀ s ∈ done, ∃ ks'', (∀ k ∈ ks'', k ∈ ks ++ ks') ∧
      Rule.Next rules ks'' s := by
    intro s hs
    obtain ⟨ks'', hsub, hnext⟩ := hdone s hs
    exact ⟨ks'', fun k hk => List.mem_append_left _ (hsub k hk), hnext⟩
  cases o with
  | none =>
    obtain ⟨rfl, rfl⟩ := pure_ok.mp h
    exact ⟨ks', hm, hold ks'⟩
  | some s =>
    obtain ⟨rfl, rfl⟩ := pure_ok.mp h
    obtain ⟨ks', hm, hnext⟩ := statement?_takes hparts h₁
    refine ⟨ks', hm, fun t ht => ?_⟩
    obtain ht | rfl := by simpa using ht
    · exact hold ks' t ht
    · exact ⟨ks', fun k hk => List.mem_append_right _ hk, hnext⟩

theorem condition_takes : (condition registry).Takes (Rule.Alone rules) := by
  intro c e d h
  simp only [condition, bind_ok, discard_ok, acceptKeyword_ok, pure_ok] at h
  obtain ⟨_, c₁, ⟨b, h₁⟩, e, c₂, h₂, _, c₃, h₃, rfl, rfl⟩ := h
  obtain ⟨_, m₂, r₂⟩ := hparts.expression 0 h₂
  obtain ⟨_, m₃, r₃⟩ := terminator_takes h₃
  obtain ⟨-, m₁⟩ | ⟨-, -, rfl⟩ := h₁
  · exact ⟨_, (m₁.trans m₂).trans m₃, .mk .present r₂ r₃⟩
  · exact ⟨_, m₂.trans m₃, .mk .absent r₂ r₃⟩

end

/-- What the rules of expressions and queries keep holds of everything that is read as one. -/
theorem readersOfDepth_follow {registry : Registry} {rules : Rules}
    (hexpression : ∀ power ks e, Rule.Expression registry rules power ks e →
      rules.expression power ks e)
    (hquery : ∀ ks q, Rule.Select registry rules ks q → rules.query ks q) (depth : Nat) :
    (readersOfDepth registry depth).Follow rules := by
  induction depth with
  | zero =>
    constructor
    · intro power c e d h
      exact absurd h (by simp [readersOfDepth, unexpected_ok])
    · intro c q d h
      exact absurd h (by simp [readersOfDepth, unexpected_ok])
  | succ depth ih =>
    constructor
    · exact fun power => (expression_takes ih power).weaken (hexpression power)
    · exact (query_takes ih).weaken hquery

theorem readers_follow {registry : Registry} {rules : Rules}
    (hexpression : ∀ power ks e, Rule.Expression registry rules power ks e →
      rules.expression power ks e)
    (hquery : ∀ ks q, Rule.Select registry rules ks q → rules.query ks q) :
    (readers registry).Follow rules where
  expression power _ _ _ h := (readersOfDepth_follow hexpression hquery _).expression power h
  query _ _ _ h := (readersOfDepth_follow hexpression hquery _).query h

end Grammar

end SqlFront
