import SqlFront.Proofs.Operands

/-! # Canonical texts of expressions

What is written for an expression is read as that expression again, if that holds of its operands.
Operations stand between parentheses, so no operator splits them and what stands around them does
not matter.
-/

namespace SqlFront

/-- No function has the name of an operator. -/
def Registry.SparesOperators (r : Registry) : Prop := ∀ name ∈ r.names, name ∉ Operator.texts

theorem Registry.SparesOperators.isFunction {r : Registry} (h : r.SparesOperators) {o : String}
    (ho : o ∈ Operator.texts) : r.isFunction o = false := by
  have hnormal : ∀ t ∈ Operator.texts, Registry.normalName t = t := by decide
  have hnone : r.entries.lookup o = none := by
    rw [List.lookup_eq_none_iff]
    intro entry hentry
    rw [bne_iff_ne]
    rintro rfl
    exact h entry.1 (List.mem_map_of_mem hentry) ho
  rw [Registry.isFunction, Registry.arity?, hnormal o ho, hnone, Option.isSome_none]

namespace Grammar

open Reading Token Kind

variable {ks : List Kind} {N : Kind → Prop}

/-! ## Operators as they are written -/

theorem chain_spelled {o : String} (h : o ∈ Operator.chains) :
    ∃ k p, SpellsAlways (" " ++ o ++ " ") [k] ∧ Power.of? k = some p ∧
      p.continuation = .chain o := by
  simp only [Operator.chains, List.mem_cons, List.not_mem_nil, or_false] at h
  obtain rfl | rfl | rfl | rfl | rfl | rfl | rfl | rfl := h
  · exact ⟨.keyword .and, _, spells_between ["AND"] (by decide), rfl, rfl⟩
  · exact ⟨.keyword .or, _, spells_between ["OR"] (by decide), rfl, rfl⟩
  · exact ⟨_, _, spells_sign_between .plus, rfl, rfl⟩
  · exact ⟨_, _, spells_sign_between .minus, rfl, rfl⟩
  · exact ⟨_, _, spells_sign_between .concat, rfl, rfl⟩
  · exact ⟨_, _, spells_sign_between .star, rfl, rfl⟩
  · exact ⟨_, _, spells_sign_between .slash, rfl, rfl⟩
  · exact ⟨_, _, spells_sign_between .power, rfl, rfl⟩

theorem comparison_spelled {o : String} (h : o ∈ Operator.comparisons) :
    ∃ k p, SpellsAlways (" " ++ o ++ " ") [k] ∧ Power.of? k = some p ∧
      p.continuation = .comparison o := by
  simp only [Operator.comparisons, List.mem_cons, List.not_mem_nil, or_false] at h
  obtain rfl | rfl | rfl | rfl | rfl | rfl | rfl | rfl := h
  · exact ⟨_, _, spells_sign_between .equal, rfl, rfl⟩
  · exact ⟨_, _, spells_sign_between .notEqual, rfl, rfl⟩
  · exact ⟨_, _, spells_sign_between .lessGreater, rfl, rfl⟩
  · exact ⟨_, _, spells_sign_between .hash, rfl, rfl⟩
  · exact ⟨_, _, spells_sign_between .less, rfl, rfl⟩
  · exact ⟨_, _, spells_sign_between .lessEqual, rfl, rfl⟩
  · exact ⟨_, _, spells_sign_between .greater, rfl, rfl⟩
  · exact ⟨_, _, spells_sign_between .greaterEqual, rfl, rfl⟩

theorem like_spelled {o : String} (h : o ∈ Operator.likes) :
    ∃ negated, o = (if negated then Operator.notLike else Operator.like) ∧
      SpellsAlways (" " ++ o ++ " ") (notKinds negated ++ [.keyword .like]) := by
  simp only [Operator.likes, List.mem_cons, List.not_mem_nil, or_false] at h
  obtain rfl | rfl := h
  · exact ⟨false, rfl, spells_between ["LIKE"] (by decide)⟩
  · exact ⟨true, rfl, spells_between ["NOT", "LIKE"] (by decide)⟩

theorem range_spelled {o : String} (h : o ∈ Operator.ranges) :
    ∃ negated, o = (if negated then Operator.notBetween else Operator.between) ∧
      SpellsAlways (" " ++ o ++ " ") (notKinds negated ++ [.keyword .between]) := by
  simp only [Operator.ranges, List.mem_cons, List.not_mem_nil, or_false] at h
  obtain rfl | rfl := h
  · exact ⟨false, rfl, spells_between ["BETWEEN"] (by decide)⟩
  · exact ⟨true, rfl, spells_between ["NOT", "BETWEEN"] (by decide)⟩

theorem membership_spelled {o : String} (h : o ∈ Operator.memberships) :
    ∃ negated, o = (if negated then Operator.notIn else Operator.isIn) ∧
      SpellsAlways (" " ++ o ++ " ") (notKinds negated ++ [.keyword .in]) := by
  simp only [Operator.memberships, List.mem_cons, List.not_mem_nil, or_false] at h
  obtain rfl | rfl := h
  · exact ⟨false, rfl, spells_between ["IN"] (by decide)⟩
  · exact ⟨true, rfl, spells_between ["NOT", "IN"] (by decide)⟩

theorem nullTest_spelled {o : String} (h : o ∈ Operator.nullTests) :
    ∃ negated, o = (if negated then Operator.isNotNull else Operator.isNull) ∧
      Spells o (.keyword .is :: notKinds negated ++ [.keyword .null]) := by
  simp only [Operator.nullTests, List.mem_cons, List.not_mem_nil, or_false] at h
  obtain rfl | rfl := h
  · exact ⟨false, rfl, spells_words ["IS", "NULL"] (by decide)⟩
  · exact ⟨true, rfl, spells_words ["IS", "NOT", "NULL"] (by decide)⟩

theorem quantifier_spelled {o : String} (h : o ∈ Operator.quantifiers) :
    ∃ word, Rule.Quantifier word o ∧ Spells o [.keyword word] := by
  simp only [Operator.quantifiers, List.mem_cons, List.not_mem_nil, or_false] at h
  obtain rfl | rfl | rfl := h
  · exact ⟨_, .any, spells_words ["ANY"] (by decide)⟩
  · exact ⟨_, .all, spells_words ["ALL"] (by decide)⟩
  · exact ⟨_, .some, spells_words ["SOME"] (by decide)⟩

/-! ## Expressions read from their canonical texts -/

variable {r : Registry}

/-- The expression is read from its canonical text, and no operator splits it. -/
def Restored (r : Registry) (e : Expr) : Prop :=
  Restores (primary r (readers r)) (·.apart = true) (e.render r) e

/-- The query is read from its canonical text. -/
def QueryRestored (r : Registry) (q : Query Expr) : Prop :=
  Restores (readers r).query (· ∈ [.eof, .symbol .rightParen]) (q.render r) q

theorem Restored.expression {e : Expr} (h : Restored r e) (power : Nat) :
    Restores ((readers r).expression power) (·.stops power = true) (e.render r) e := by
  obtain ⟨ks, hs, hread⟩ := h
  rw [expression_readers]
  exact ⟨ks, hs, expression_reads_primary hread⟩

/-- An operand that is read before everything that ends an expression. -/
theorem Restored.operand {e : Expr} (h : Restored r e) (power : Nat) :
    Restores ((readers r).expression power) (·.stops 0 = true) (e.render r) e :=
  (h.expression power).weaken fun _ => stops_mono (Nat.zero_le power)

theorem spells_commaSpace : SpellsAlways ", " [.symbol .comma] := by
  have hboth : SpellsAlways ("," ++ " ") ([.symbol .comma] ++ []) :=
    SpellsAlways.append spells_comma spells_space
  exact hboth

theorem restores_expressions {es : List Expr} {text : Expr → String} (hne : es ≠ [])
    (h : ∀ e ∈ es, Restores ((readers r).expression 0) (·.stops 0 = true) (text e) e) :
    Restores (expressions (readers r)) (· = .symbol .rightParen) (Text.join ", " (es.map text)) es := by
  refine restores_commaList _ spells_commaSpace (by decide) h hne rfl ?_ (by simp)
  rintro _ rfl
  rfl

theorem restores_enclosed {es : List Expr} {e : Expr} {text : Expr → String} (hne : es ≠ [])
    (h : ∀ e ∈ es, Restores ((readers r).expression 0) (·.stops 0 = true) (text e) e)
    (he : es = [e] ∨ 2 ≤ es.length ∧ e = .applied Operator.list es) :
    Restores (primary r (readers r)) N ("(" ++ Text.join ", " (es.map text) ++ ")") e := by
  obtain ⟨ks, hs, hread⟩ := restores_expressions hne h
  refine ⟨_, hs.parens.weaken fun _ _ => trivial, primary_reads_enclosed hread ?_ he⟩
  obtain ⟨c, d, hc, hkind⟩ := hread.exists rfl
  have hstarts := expressions_starts hc
  rw [hkind] at hstarts
  intro hselect
  rw [hselect] at hstarts
  cases hstarts

/-- An expression between parentheses. -/
theorem restores_group {s : String} {e : Expr}
    (h : Restores ((readers r).expression 0) (·.stops 0 = true) s e) :
    Restores (primary r (readers r)) N ("(" ++ s ++ ")") e := by
  have hlist := @restores_enclosed N r [e] e (fun _ => s) (by simp) (by simpa using h) (.inl rfl)
  simpa only [List.map_cons, List.map_nil, Text.join] using hlist

/-- An operand with one operator and its right side behind it. -/
theorem restores_link {left : Expr} (next : Chain) {t : String} {k : Kind}
    (hleft : Restored r left) (hspells : Spells t (k :: ks)) (ht : Separate t)
    (hk : k.apart = true) (hlink : Reads (chainStep (readers r) 0 ⟨left, none, false⟩)
      (·.stops 0 = true) (k :: ks) (.yield next)) :
    Restores ((readers r).expression 0) (·.stops 0 = true) (left.render r ++ t) next.expr := by
  obtain ⟨ks', hs, hread⟩ := hleft
  rw [expression_readers]
  exact ⟨ks' ++ k :: ks, hs.append hspells ht, expression_reads (operand_reads_primary hread)
    (hlink.goes (chainStep_progress _ _)) (fun _ _ => hk) fun _ hk => ⟨hk, hk⟩⟩

theorem restores_chain {o : String} {es : List Expr} (ho : o ∈ Operator.chains)
    (hlength : 2 ≤ es.length) (hes : ∀ e ∈ es, Restored r e) :
    Restores ((readers r).expression 0) (·.stops 0 = true)
      (Text.join (" " ++ o ++ " ") (es.map (Expr.render r))) (.applied o es) := by
  obtain _ | ⟨first, _ | ⟨second, rest⟩⟩ := es
  · simp at hlength
  · simp at hlength
  obtain ⟨k, p, hspells, hp, hcontinuation⟩ := chain_spelled ho
  have hstart : startsBoundary (" " ++ o ++ " ") = true := by
    simp [startsBoundary, String.toList_append]
  obtain ⟨ks, hs, hread⟩ := hes first (by simp)
  obtain ⟨ks', hs', hhead, hgoes⟩ := goes_behind (M := (·.stops p.right = true))
    (Expr.render r) (·.join o ·) hspells hstart (stops_operator hp)
    (fun e (he : e ∈ second :: rest) => by
      obtain ⟨ks, hs, hread⟩ := (hes e (List.mem_cons_of_mem _ he)).expression p.right
      exact ⟨ks, hs, chainStep_reads_chain hp hcontinuation (Nat.zero_le _) hread⟩)
    (chainStep_progress (readers r) 0)
  have hgoes := hgoes ⟨first, none, false⟩
  rw [foldl_join] at hgoes
  refine ⟨ks ++ ks', ?_, ?_⟩
  · rw [List.map_cons, join_cons]
    exact hs.append hs' (separate_behind hstart _)
  · rw [expression_readers]
    exact expression_reads (operand_reads_primary hread) hgoes
      (fun k hk => apart_of_stops (hhead k hk)) fun k hk => ⟨stops_mono (Nat.zero_le _) hk, hk⟩

theorem restores_comparison {o text : String} {left right : Expr} (ho : o ∈ Operator.comparisons)
    (hleft : Restored r left)
    (hright : ∀ power, Restores (comparand (readers r) power) (·.stops 0 = true) text right) :
    Restores ((readers r).expression 0) (·.stops 0 = true)
      (left.render r ++ (" " ++ o ++ " " ++ text)) (.binary o left right) := by
  obtain ⟨k, p, hspells, hp, hcontinuation⟩ := comparison_spelled ho
  obtain ⟨ks, hs, hread⟩ := hright p.right
  refine restores_link _ hleft (SpellsAlways.append hspells hs) ?_ (apart_of_stops (stops_operator hp))
    (chainStep_reads_comparison hp hcontinuation (Nat.zero_le _) rfl hread)
  rw [String.append_assoc, String.append_assoc]
  exact separate_append _ (by decide)

theorem restores_test {t : String} {left e : Expr} {negated : Bool} {word : Keyword}
    (hleft : Restored r left) (hword : Power.of? (.keyword word) = some ⟨9, Power.testOperand, .test⟩)
    (hspells : Spells t (notKinds negated ++ .keyword word :: ks)) (ht : Separate t)
    (hread : Reads (test (readers r) left) (·.stops 0 = true)
      (notKinds negated ++ .keyword word :: ks) e) :
    Restores ((readers r).expression 0) (·.stops 0 = true) (left.render r ++ t) e := by
  cases negated with
  | true =>
    exact restores_link ⟨e, none, false⟩ hleft hspells ht rfl
      (chainStep_reads_test (p := ⟨9, Power.testOperand, .test⟩) rfl rfl (Nat.zero_le _) hread)
  | false =>
    exact restores_link ⟨e, none, false⟩ hleft hspells ht
      (apart_of_stops (stops_operator hword))
      (chainStep_reads_test hword rfl (Nat.zero_le _) hread)

theorem restores_like {o : String} {left pattern : Expr} (ho : o ∈ Operator.likes)
    (hleft : Restored r left) (hpattern : Restored r pattern) :
    Restores ((readers r).expression 0) (·.stops 0 = true)
      (left.render r ++ (" " ++ o ++ " " ++ pattern.render r)) (.binary o left pattern) := by
  obtain ⟨negated, rfl, hspells⟩ := like_spelled ho
  obtain ⟨ks, hs, hread⟩ := hpattern.operand Power.testOperand
  have hall := SpellsAlways.append hspells hs
  rw [List.append_assoc] at hall
  refine restores_test hleft rfl hall ?_ (test_reads (by decide) (testOf_reads_like hread))
  rw [String.append_assoc, String.append_assoc]
  exact separate_append _ (by decide)

theorem restores_range {o : String} {left low high : Expr} (ho : o ∈ Operator.ranges)
    (hleft : Restored r left) (hlow : Restored r low) (hhigh : Restored r high) :
    Restores ((readers r).expression 0) (·.stops 0 = true)
      (left.render r ++ (" " ++ o ++ " " ++ low.render r ++ " AND " ++ high.render r))
      (.applied o [left, low, high]) := by
  obtain ⟨negated, rfl, hspells⟩ := range_spelled ho
  obtain ⟨ks, hs, hread⟩ := hlow.expression Power.testOperand
  obtain ⟨ks', hs', hread'⟩ := hhigh.operand Power.testOperand
  have hand : SpellsAlways " AND " [.keyword .and] := spells_between ["AND"] (by decide)
  have hall := SpellsAlways.append (Spells.append_starts (SpellsAlways.append hspells hs) hand (by decide)) hs'
  rw [List.append_assoc, List.append_assoc, List.append_assoc] at hall
  refine restores_test hleft rfl hall ?_ (test_reads (by decide) (testOf_reads_between ?_ hread'))
  · simp only [String.append_assoc]
    exact separate_append _ (by decide)
  · refine hread.weaken ?_
    rintro _ rfl
    rfl

/-- A query between parentheses, and what starts it. -/
theorem QueryRestored.tokens {q : Query Expr} (h : QueryRestored r q) :
    ∃ ks, Spells (q.render r) ks ∧ Reads (readers r).query (· = .symbol .rightParen) ks q ∧
      ks.headD (.symbol .rightParen) = .keyword .select := by
  obtain ⟨ks, hs, hread⟩ := h
  obtain ⟨c, d, hc, hkind⟩ := hread.exists (k := .symbol .rightParen) (by simp)
  refine ⟨ks, hs, hread.weaken ?_, hkind ▸ query_starts hc⟩
  rintro _ rfl
  simp

theorem QueryRestored.restored {q : Query Expr} (h : QueryRestored r q) : Restored r (.query q) := by
  obtain ⟨ks, hs, hread, hselect⟩ := h.tokens
  rw [Restored, Expr.render_query]
  exact ⟨_, hs.parens.weaken fun _ _ => trivial, primary_reads_query hread hselect⟩

/-- What a reserved word says of the query between parentheses behind it. -/
theorem QueryRestored.behind_word {q : Query Expr} (h : QueryRestored r q) {word : Keyword}
    {o : String} (ho : Spells o [.keyword word]) {p : Reading Expr} {f : Query Expr → Expr}
    (hp : ∀ ks,
      Reads (enclosedQuery (readers r) >>= fun q => pure (f q)) (fun _ => True) ks (f q) →
      Reads p N (.keyword word :: ks) (f q)) :
    Restores p N (o ++ " " ++ (Expr.query q).render r) (f q) := by
  obtain ⟨ks, hs, hread, -⟩ := h.tokens
  rw [Expr.render_query]
  exact ⟨_, SpellsAlways.append ho.space_after (hs.parens.weaken fun _ _ => trivial),
    hp _ (enclosedQuery_reads hread).map⟩

theorem comparand_restores_quantified {o : String} {q : Query Expr} (ho : o ∈ Operator.quantifiers)
    (hq : QueryRestored r q) (power : Nat) :
    Restores (comparand (readers r) power) N (o ++ " " ++ (Expr.query q).render r)
      (.unary o (.query q)) := by
  obtain ⟨word, hquantifier, hspells⟩ := quantifier_spelled ho
  refine hq.behind_word hspells (f := fun q => .unary o (.query q)) fun ks h => ?_
  cases hquantifier <;>
    exact reads_kind_bind (reads_advance_bind (h.weaken fun _ _ => trivial))

theorem comparand_restores {e : Expr} (h : Restored r e) (power : Nat) :
    Restores (comparand (readers r) power) (·.stops 0 = true) (e.render r) e := by
  obtain ⟨ks, hs, hread⟩ := h.operand power
  refine ⟨ks, hs, fun c d hm hd => ?_⟩
  have he := hread hm hd
  have hstarts : startsOperand c.current.kind = true := by
    rw [expression_readers] at he
    exact expression_starts he
  rw [comparand, kind_bind]
  split
  all_goals first
    | exact he
    | (rename_i hk; rw [hk] at hstarts; cases hstarts)

theorem candidates_restores {es : List Expr} (hne : es ≠ [])
    (hes : ∀ e ∈ es, Restored r e) (hquery : ∀ q, .query q ∈ es → QueryRestored r q) :
    ∃ ks, Spells (membershipText es (es.map (Expr.render r)))
        (.symbol .leftParen :: ks ++ [.symbol .rightParen]) ∧
      Reads (candidates (readers r)) (· = .symbol .rightParen) ks es := by
  unfold membershipText
  split
  · rename_i q
    obtain ⟨ks, hs, hread, hselect⟩ := (hquery q (by simp)).tokens
    refine ⟨ks, ?_, fun c d hm hd => ?_⟩
    · rw [List.map_cons, List.map_nil, Text.join, Expr.render_query]
      exact hs.parens.weaken fun _ _ => trivial
    · rw [candidates, kind_bind, hm.current, hd, hselect, if_pos rfl]
      exact hread.map hm hd
  · obtain ⟨ks, hs, hread⟩ := restores_expressions hne fun e he => (hes e he).operand 0
    exact ⟨ks, hs.parens.weaken fun _ _ => trivial, candidates_reads hread⟩

theorem restores_membership {o : String} {left : Expr} {es : List Expr}
    (ho : o ∈ Operator.memberships) (hleft : Restored r left) (hne : es ≠ [])
    (hes : ∀ e ∈ es, Restored r e) (hquery : ∀ q, .query q ∈ es → QueryRestored r q) :
    Restores ((readers r).expression 0) (·.stops 0 = true)
      (left.render r ++ (" " ++ o ++ " " ++ membershipText es (es.map (Expr.render r))))
      (.applied o (left :: es)) := by
  obtain ⟨negated, rfl, hspells⟩ := membership_spelled ho
  obtain ⟨ks, hs, hread⟩ := candidates_restores hne hes hquery
  have hall := SpellsAlways.append hspells hs
  rw [List.append_assoc] at hall
  refine restores_test hleft rfl hall ?_ (test_reads (by decide) (testOf_reads_in hread))
  simp only [String.append_assoc]
  exact separate_append _ (by decide)

theorem restores_nullTest {o : String} {e : Expr} (ho : o ∈ Operator.nullTests)
    (he : Restored r e) :
    Restores ((readers r).expression 0) (·.stops 0 = true) (e.render r ++ (" " ++ o))
      (.unary o e) := by
  obtain ⟨negated, rfl, hspells⟩ := nullTest_spelled ho
  exact restores_link ⟨_, none, false⟩ he (SpellsBefore.space_before hspells) (separate_append _ (by decide)) rfl
    (chainStep_reads_nullTest (p := ⟨11, 12, .nullTest⟩) rfl rfl (Nat.zero_le _)
      (nullTest_reads e negated))

/-- An operand with a word or sign before it. -/
theorem restores_prefix {s : String} {e whole : Expr} {k : Kind} {power : Nat}
    (hspells : SpellsAlways s [k]) (he : Restored r e)
    (hread : ∀ ks, Reads ((readers r).expression power) (·.stops 0 = true) ks e →
      Reads (operand r (readers r)) (·.stops 0 = true) (k :: ks) whole) :
    Restores ((readers r).expression 0) (·.stops 0 = true) (s ++ e.render r) whole := by
  obtain ⟨ks, hs, he⟩ := he.operand power
  have hgoes : Goes (chainStep (readers r) 0) (·.stops 0 = true) ⟨whole, none, false⟩ []
    ⟨whole, none, false⟩ := goes_refl _
  rw [expression_readers]
  refine ⟨k :: ks, SpellsAlways.append hspells hs, ?_⟩
  simpa using expression_reads (hread ks he) hgoes (fun _ hk => hk) fun _ hk => ⟨hk, hk⟩

theorem restores_not {e : Expr} (he : Restored r e) :
    Restores ((readers r).expression 0) (·.stops 0 = true) (Operator.not ++ " " ++ e.render r)
      (.unary Operator.not e) :=
  have hnot : Spells Operator.not [.keyword .not] := spells_words ["NOT"] (by decide)
  restores_prefix hnot.space_after he fun _ h => reads_kind_bind (reads_advance_bind h.map)

theorem restores_sign {e : Expr} (he : Restored r e) :
    Restores ((readers r).expression 0) (·.stops 0 = true) (Operator.minus ++ " " ++ e.render r)
      (.unary Operator.minus e) :=
  restores_prefix (spells_sign .minus) he fun _ h =>
    reads_kind_bind (reads_advance_bind h.map)

theorem restores_exists {q : Query Expr} (hq : QueryRestored r q) :
    Restores ((readers r).expression 0) (·.stops 0 = true)
      (Operator.exist ++ " " ++ (Expr.query q).render r) (.unary Operator.exist (.query q)) := by
  have hexists : Spells Operator.exist [.keyword .exists] := spells_words ["EXISTS"] (by decide)
  rw [expression_readers]
  refine hq.behind_word hexists (f := fun q => .unary Operator.exist (.query q)) fun ks h => ?_
  exact expression_reads_primary (reads_kind_bind (reads_advance_bind (h.weaken fun _ _ => trivial)))

/-! ## How operations are laid out -/

section Layout

variable {o : String} {es : List Expr} {texts : List String}

/-- The operators that stand between their operands. -/
def infixes : List String := Operator.chains ++ Operator.comparisons ++ Operator.likes

theorem layout_chained (hr : r.SparesOperators) (ho : o ∈ infixes) (hlength : 2 ≤ es.length) :
    Operation.layout r ⟨o, es, false⟩ texts = "(" ++ Text.join (" " ++ o ++ " ") texts ++ ")" := by
  have hfacts : ∀ o ∈ infixes, o ∈ Operator.texts ∧
      ¬ Operator.between.toList <:+ (Text.upper o).toList ∧ Operator.isMembership o = false ∧
      o ≠ Operator.list ∧ Operator.isQuantifier o = false ∧
      Text.sameWord o Operator.union = false := by decide
  obtain ⟨htext, hrange, hmembership, hlist, hquantifier, hunion⟩ := hfacts o ho
  have hone : es.length ≠ 1 := by omega
  have hempty : es.isEmpty = false := by
    cases es with
    | nil => simp at hlength
    | cons => rfl
  have hshape : OperationShape.of r ⟨o, es, false⟩ = .chain := by
    simp [OperationShape.of, hr.isFunction htext, hone, hempty, hrange, hmembership, hlist]
  simp [Operation.layout, hshape, hquantifier, hunion]

theorem layout_range (hr : r.SparesOperators) (ho : o ∈ Operator.ranges) {a b c : Expr}
    {x y z : String} : Operation.layout r ⟨o, [a, b, c], false⟩ [x, y, z] =
      "(" ++ (x ++ (" " ++ o ++ " " ++ y ++ " AND " ++ z)) ++ ")" := by
  have hfacts : ∀ o ∈ Operator.ranges, o ∈ Operator.texts ∧
      Operator.between.toList <:+ (Text.upper o).toList ∧ Operator.isQuantifier o = false ∧
      Text.sameWord o Operator.union = false := by decide
  obtain ⟨htext, hrange, hquantifier, hunion⟩ := hfacts o ho
  have hshape : OperationShape.of r ⟨o, [a, b, c], false⟩ = .range := by
    simp [OperationShape.of, hr.isFunction htext, hrange]
  simp [Operation.layout, hshape, hquantifier, hunion, String.append_assoc]

theorem layout_after (hr : r.SparesOperators) (ho : o ∈ Operator.nullTests) {a : Expr} {x : String} :
    Operation.layout r ⟨o, [a], false⟩ [x] = "(" ++ (x ++ (" " ++ o)) ++ ")" := by
  have hfacts : ∀ o ∈ Operator.nullTests, o ∈ Operator.texts ∧ Operator.isNullTest o = true ∧
      Operator.isQuantifier o = false ∧ Text.sameWord o Operator.union = false := by decide
  obtain ⟨htext, hnull, hquantifier, hunion⟩ := hfacts o ho
  have hshape : OperationShape.of r ⟨o, [a], false⟩ = .after := by
    simp [OperationShape.of, hr.isFunction htext, hnull]
  simp [Operation.layout, hshape, hquantifier, hunion, String.append_assoc]

theorem layout_before (hr : r.SparesOperators)
    (ho : o ∈ [Operator.not, Operator.minus, Operator.exist]) {a : Expr} {x : String} :
    Operation.layout r ⟨o, [a], false⟩ [x] = "(" ++ (o ++ " " ++ x) ++ ")" := by
  have hfacts : ∀ o ∈ [Operator.not, Operator.minus, Operator.exist], o ∈ Operator.texts ∧
      Operator.isNullTest o = false ∧ o ≠ Operator.list ∧ Operator.isQuantifier o = false ∧
      Text.sameWord o Operator.union = false := by decide
  obtain ⟨htext, hnull, hlist, hquantifier, hunion⟩ := hfacts o ho
  have hshape : OperationShape.of r ⟨o, [a], false⟩ = .before := by
    simp [OperationShape.of, hr.isFunction htext, hnull, hlist]
  simp [Operation.layout, hshape, hquantifier, hunion]

/-- A quantifier brings no parentheses. -/
theorem layout_quantifier (hr : r.SparesOperators) (ho : o ∈ Operator.quantifiers) {a : Expr}
    {x : String} : Operation.layout r ⟨o, [a], false⟩ [x] = o ++ " " ++ x := by
  have hfacts : ∀ o ∈ Operator.quantifiers, o ∈ Operator.texts ∧
      Operator.isNullTest o = false ∧ o ≠ Operator.list ∧ Operator.isQuantifier o = true := by decide
  obtain ⟨htext, hnull, hlist, hquantifier⟩ := hfacts o ho
  have hshape : OperationShape.of r ⟨o, [a], false⟩ = .before := by
    simp [OperationShape.of, hr.isFunction htext, hnull, hlist]
  simp [Operation.layout, hshape, hquantifier]

theorem layout_membership (hr : r.SparesOperators) (ho : o ∈ Operator.memberships)
    (hne : es ≠ []) {a : Expr} {x : String} : Operation.layout r ⟨o, a :: es, false⟩ (x :: texts) =
      "(" ++ (x ++ (" " ++ o ++ " " ++ membershipText es texts)) ++ ")" := by
  have hfacts : ∀ o ∈ Operator.memberships, o ∈ Operator.texts ∧
      ¬ Operator.between.toList <:+ (Text.upper o).toList ∧ Operator.isMembership o = true ∧
      Operator.isQuantifier o = false ∧ Text.sameWord o Operator.union = false := by decide
  obtain ⟨htext, hrange, hmembership, hquantifier, hunion⟩ := hfacts o ho
  have hone : (a :: es).length ≠ 1 := by simpa using hne
  have hshape : OperationShape.of r ⟨o, a :: es, false⟩ = .membership := by
    simp only [OperationShape.of, hr.isFunction htext, hone, hrange, hmembership]
    simp
  simp [Operation.layout, hshape, hquantifier, hunion, String.append_assoc]

theorem layout_list (hr : r.SparesOperators) (hlength : 2 ≤ es.length) :
    Operation.layout r ⟨Operator.list, es, false⟩ texts = "(" ++ Text.join ", " texts ++ ")" := by
  have hfacts : Operator.list ∈ Operator.texts ∧
      ¬ Operator.between.toList <:+ (Text.upper Operator.list).toList ∧
      Operator.isMembership Operator.list = false ∧ Operator.isQuantifier Operator.list = false ∧
      Text.sameWord Operator.list Operator.union = false := by decide
  obtain ⟨htext, hrange, hmembership, hquantifier, hunion⟩ := hfacts
  have hone : es.length ≠ 1 := by omega
  have hempty : es.isEmpty = false := by
    cases es with
    | nil => simp at hlength
    | cons => rfl
  have hshape : OperationShape.of r ⟨Operator.list, es, false⟩ = .list := by
    simp [OperationShape.of, hr.isFunction htext, hone, hempty, hrange, hmembership]
  simp [Operation.layout, hshape, hquantifier, hunion]

end Layout

/-! ## Constants and calls -/

theorem constant_restored {c : Constant} (h : c.Form) (hplain : (Expr.constant c).Plain) :
    Restored r (.constant c) := by
  cases h with
  | star => exact absurd rfl hplain.1
  | column h =>
    obtain ⟨ks, hks, h⟩ := h
    exact ⟨ks, spells_column h hks, column_reads h⟩
  | null =>
    have hnull : Spells "NULL" [.keyword .null] := spells_words ["NULL"] (by decide)
    exact ⟨_, hnull, reads_kind_bind (reads_advance_bind (reads_pure _))⟩
  | number h =>
    exact ⟨_, spells_number h, reads_kind_bind (reads_advance_bind (reads_pure _))⟩
  | @string value =>
    exact ⟨_, (spells_string value).weaken boundary_no_quote, reads_kind_bind (reads_advance_bind (reads_pure _))⟩

theorem placeholder_restored : Restored r .placeholder :=
  ⟨_, spells_question.weaken fun _ _ => trivial, reads_kind_bind (reads_advance_bind (reads_pure _))⟩

theorem argument_restores {e : Expr} (h : Restored r e ∨ e = Expr.star) :
    Restores (argument (readers r)) (·.stops 0 = true) (e.render r) e := by
  obtain h | rfl := h
  · obtain ⟨ks, hs, hread⟩ := h.operand 0
    exact ⟨ks, hs, argument_reads hread⟩
  · exact ⟨_, spells_star, reads_accept_then (reads_pure _) rfl⟩

theorem arguments_restores {args : List Expr} (h : ∀ e ∈ args, Restored r e ∨ e = Expr.star) :
    Restores (arguments (readers r)) (· = .symbol .rightParen)
      (Text.join "," (args.map (Expr.render r))) args := by
  by_cases hne : args = []
  · subst hne
    exact ⟨[], spells_nil, arguments_reads_nil⟩
  · have hlist := restores_commaList (N := (· = .symbol .rightParen)) _ spells_comma (by decide)
      (fun e he => argument_restores (h e he)) hne rfl (by rintro _ rfl; rfl) (by simp)
    obtain ⟨ks, hs, hread⟩ := hlist
    exact ⟨ks, hs, arguments_reads hread⟩

theorem call_restored {name : String} {arity : Arity} {args : List Expr} (hname : IsName name)
    (harity : r.arity? name = some arity) (haccepts : arity.accepts args.length = true)
    (hargs : ∀ e ∈ args, Restored r e ∨ e = Expr.star) :
    Restored r (.operation ⟨Text.upper name, args, true⟩) := by
  obtain ⟨ks, hs, hread⟩ := arguments_restores hargs
  refine ⟨.name (Text.upper name) :: (.symbol .leftParen :: ks ++ [.symbol .rightParen]), ?_, ?_⟩
  · have htext : (Expr.operation ⟨Text.upper name, args, true⟩).render r =
        Text.upper name ++ ("(" ++ Text.join "," (args.map (Expr.render r)) ++ ")") := by
      rw [Expr.render_operation, Operation.layout_call]
      simp only [String.append_assoc]
    rw [htext]
    have hname : Spells (Text.upper name) [.name (Text.upper name)] :=
      (spells_name hname.upper).weaken fun _ => Boundary.nameEnd
    refine hname.append (hs.parens.weaken fun _ _ => trivial) ?_
    rw [String.append_assoc]
    exact separate_append _ (by decide)
  · rw [← Registry.arity?_upper] at harity
    have hcall := call_reads (N := (·.apart = true)) harity haccepts hread
    rwa [Expr.call, Text.upper_upper] at hcall

end Grammar

end SqlFront
