import SqlFront.Proofs.Reads

/-! # Operands and operators on given tokens

Names, operands and operators with their right sides, each read from tokens of given kinds. An
expression that no operator splits is read wherever no dot and no parenthesis follows, an expression
of at least some power wherever no operator of that power follows either.
-/

namespace SqlFront

namespace Token.Kind

/-- Whether the token goes on with no name before it. -/
def apart (k : Kind) : Bool := k != .symbol .dot && k != .symbol .leftParen

/-- Whether an expression of at least the given power ends before the token. -/
def stops (power : Nat) (k : Kind) : Bool := k.apart && (Power.of? k).all (·.left < power)

/-- Whether an expression that no operator splits can start with the token. -/
def startsPrimary : Kind → Bool
  | .number _ | .string _ | .name _ => true
  | .keyword .null | .keyword .exists | .symbol .question | .symbol .leftParen => true
  | _ => false

theorem apart_of_stops {power : Nat} {k : Kind} (h : k.stops power = true) : k.apart = true :=
  (Bool.and_eq_true_iff.mp h).1

theorem stops_mono {power power' : Nat} (h : power ≤ power') {k : Kind}
    (hk : k.stops power = true) : k.stops power' = true := by
  obtain ⟨happart, hpower⟩ := Bool.and_eq_true_iff.mp hk
  refine Bool.and_eq_true_iff.mpr ⟨happart, ?_⟩
  cases hp : Power.of? k with
  | none => rfl
  | some p =>
    have hless : p.left < power := by simpa [hp] using hpower
    simpa using Nat.lt_of_lt_of_le hless h

/-- An operand ends before the operator that reads it. -/
theorem stops_operator {k : Kind} {p : Power} (h : Power.of? k = some p) :
    k.stops p.right = true := by
  have happart : k.apart = true := by
    rw [apart, Bool.and_eq_true]
    constructor <;> rw [bne_iff_ne] <;> rintro rfl <;> cases h
  simpa [stops, happart, h] using Power.left_lt_right h

end Token.Kind

namespace Grammar

open Reading Token Kind

variable {registry : Registry} {part : Readers} {ks ks' : List Kind}

/-! ## Names -/

/-- A dotted name is a name with dots and names behind it. -/
theorem dotted_cons {t : String} (h : Rule.Dotted ks t) :
    ∃ n rest, ks = .name n :: rest ∧ (rest = [] ∨ ∃ rest', rest = .symbol .dot :: rest') := by
  induction h with
  | @one n => exact ⟨n, [], rfl, .inl rfl⟩
  | @more ks t m _ ih =>
    obtain ⟨n, rest, rfl, rfl | ⟨rest', rfl⟩⟩ := ih
    · exact ⟨n, _, rfl, .inr ⟨_, rfl⟩⟩
    · exact ⟨n, _, rfl, .inr ⟨_, rfl⟩⟩

/-- A loop that reads a dot and a name at a time reads a dotted name. -/
theorem goes_dotted {step : String → Reading (ForInStep String)} (hprogress : Progress step)
    (hstep : ∀ text n,
      Reads (step text) (fun _ => True) [.symbol .dot, .name n] (.yield (text ++ "." ++ n)))
    {t : String} (h : Rule.Dotted ks t) {n : String} {rest : List Kind} (hks : ks = .name n :: rest) :
    Goes step (fun _ => True) n rest t := by
  induction h generalizing rest with
  | one =>
    obtain ⟨⟨⟩, rfl⟩ := List.cons.inj hks
    exact goes_refl n
  | @more ks t m h ih =>
    obtain ⟨_, rest, rfl, -⟩ := dotted_cons h
    obtain ⟨⟨⟩, rfl⟩ := List.cons.inj hks
    exact (ih rfl).trans ((hstep t m).goes hprogress) fun _ _ => trivial

theorem dottedName_reads {t : String} (h : Rule.Dotted ks t) :
    Reads dottedName (· ≠ .symbol .dot) ks t := by
  obtain ⟨n, rest, rfl, -⟩ := dotted_cons h
  have hgoes := goes_dotted dottedName_progress
    (fun text n => reads_accept_then (reads_name n).map (by simp)) h rfl
  exact (reads_name (N := fun _ => True) n).bind (hgoes.stop (reads_accept_else (reads_pure _) (by simp))
    (fun _ _ => trivial) dottedName_progress) fun _ _ => trivial

theorem dottedName_restores {t : String} (h : IsDotted t) :
    Restores dottedName (· ≠ .symbol .dot) t t := by
  obtain ⟨ks, hks, h⟩ := h
  exact ⟨ks, (spells_dotted h hks).weaken fun _ => Boundary.nameEnd, dottedName_reads h⟩

/-- A name that may be missing and is. -/
theorem name?_absent {N : Kind → Prop} (hN : ∀ k, N k → ∀ n, k ≠ .name n) : Reads name? N [] none := by
  intro c d hm hd
  obtain rfl := Cursor.moves_nil.mp hm
  rw [name?, kind_bind]
  split
  · rename_i n hk
    exact absurd hk (hN _ hd n)
  · rfl

theorem name?_present {N : Kind → Prop} (n : String) : Reads name? N [.name n] (some n) :=
  reads_kind_bind (reads_advance_bind (reads_pure _))

theorem optionalAlias_reads {a : Option String} (h : Rule.Optional Rule.Alias ks a) :
    Reads optionalAlias (fun k => k ≠ .keyword .as ∧ ∀ n, k ≠ .name n) ks a := by
  cases h with
  | absent =>
    exact reads_accept_else (name?_absent fun _ hk => hk.2) fun k hk => by simpa using hk.1
  | present h =>
    cases h with
    | as => exact reads_accept_then (reads_name _).map rfl
    | bare => exact reads_accept_other (name?_present _) rfl

theorem columnRest_reads {n t : String} (h : Rule.Column ks t) (hks : ks = .name n :: ks') :
    Reads (columnRest n) (· ≠ .symbol .dot) ks' (.column t) := by
  have hstep (text m : String) : Reads (do
      if ← acceptSymbol .dot then
        if ← acceptSymbol .star then return ForInStep.done (text ++ ".*")
        else return .yield (text ++ "." ++ (← name))
      else return .done text) (fun _ => True) [.symbol .dot, .name m]
        (.yield (text ++ "." ++ m)) :=
    reads_accept_then (reads_accept_else (reads_name m).map (by simp)) (by simp)
  cases h with
  | dotted h =>
    exact ((goes_dotted columnRest_progress hstep h hks).stop (reads_accept_else (reads_pure _) (by simp))
      (fun _ _ => trivial) columnRest_progress).map
  | all h =>
    obtain ⟨_, rest, rfl, -⟩ := dotted_cons h
    obtain ⟨⟨⟩, rfl⟩ := List.cons.inj hks
    exact ((goes_dotted columnRest_progress hstep h rfl).reads
      (reads_accept_then (reads_accept_then (reads_pure _) (by simp)) (by simp))
      (fun _ _ => trivial) columnRest_progress).map

theorem column_cons {t : String} (h : Rule.Column ks t) :
    ∃ n rest, ks = .name n :: rest ∧ (rest = [] ∨ ∃ rest', rest = .symbol .dot :: rest') := by
  cases h with
  | dotted h => exact dotted_cons h
  | all h =>
    obtain ⟨n, rest, rfl, rfl | ⟨rest', rfl⟩⟩ := dotted_cons h
    · exact ⟨n, _, rfl, .inr ⟨_, rfl⟩⟩
    · exact ⟨n, _, rfl, .inr ⟨_, rfl⟩⟩

theorem column_reads {t : String} (h : Rule.Column ks t) :
    Reads (primary registry part) (·.apart = true) ks (.column t) := by
  obtain ⟨n, rest, rfl, hrest⟩ := column_cons h
  refine reads_kind_bind ?_
  intro c d hm hd
  obtain ⟨e, hm, hm'⟩ := hm.cons
  have hparen : e.current.kind ≠ .symbol .leftParen := by
    rw [hm'.current]
    obtain rfl | ⟨rest', rfl⟩ := hrest
    · simpa [apart] using (Bool.and_eq_true_iff.mp hd).2
    · simp
  dsimp only
  rw [span_bind, advance_bind, kind_bind, hm.advance, if_neg hparen]
  exact columnRest_reads h rfl hm' (by simpa [apart] using (Bool.and_eq_true_iff.mp hd).1)

/-! ## Operands -/

theorem primary_starts {c d : Cursor} {e : Expr} (h : primary registry part c = (.ok e, d)) :
    c.current.kind.startsPrimary = true := by
  rw [primary, kind_bind] at h
  split at h <;> first
    | (rename_i hk; rw [hk]; rfl)
    | simp [unexpected_ok] at h

theorem operand_of_primary {c : Cursor} (h : c.current.kind.startsPrimary = true) :
    operand registry part c = primary registry part c := by
  rw [operand, kind_bind]
  split <;> first
    | rfl
    | (rename_i hk; rw [hk] at h; cases h)

theorem chainStep_stops {power : Nat} {c : Cursor} (chain : Chain)
    (h : c.current.kind.stops power = true) :
    chainStep part power chain c = (.ok (.done chain), c) := by
  rw [chainStep, kind_bind]
  cases hp : Power.of? c.current.kind with
  | none => rfl
  | some p =>
    have hless : p.left < power := by simpa [stops, hp] using (Bool.and_eq_true_iff.mp h).2
    dsimp only
    rw [if_pos hless]
    rfl

variable {M N L : Kind → Prop}

theorem operand_reads_primary {e : Expr} (h : Reads (primary registry part) N ks e) :
    Reads (operand registry part) N ks e := by
  intro c d hm hd
  have hprimary := h hm hd
  rw [operand_of_primary (primary_starts hprimary), hprimary]

/-- An operand and the operators with their right sides behind it. -/
theorem expression_reads {power : Nat} {first : Expr} {chain : Chain}
    (hfirst : Reads (operand registry part) M ks first)
    (hgoes : Goes (chainStep part power) L ⟨first, none, false⟩ ks' chain)
    (hM : ∀ k, L k → M (ks'.headD k)) (hN : ∀ k, N k → L k ∧ k.stops power = true) :
    Reads (expression registry part power) N (ks ++ ks') chain.expr := by
  have hdone : Reads (chainStep part power chain) N [] (.done chain) := by
    intro c d hm hd
    rw [Cursor.moves_nil.mp hm] at hd ⊢
    exact chainStep_stops chain (hN _ hd).2
  exact hfirst.bind (hgoes.stop hdone (fun k hk => (hN k hk).1) (chainStep_progress part power)).map
    fun k hk => hM k (hN k hk).1

theorem expression_reads_primary {power : Nat} {e : Expr}
    (h : Reads (primary registry part) (·.apart = true) ks e) :
    Reads (expression registry part power) (·.stops power = true) ks e := by
  have hgoes : Goes (chainStep part power) (·.apart = true) ⟨e, none, false⟩ [] ⟨e, none, false⟩ :=
    goes_refl _
  simpa using expression_reads (operand_reads_primary h) hgoes (fun k hk => hk)
    fun k hk => ⟨apart_of_stops hk, hk⟩

/-! ## Operators with their right sides -/

theorem chainStep_reads_chain {power : Nat} {k : Kind} {p : Power} {operator : String} {e : Expr}
    (hp : Power.of? k = some p) (ho : p.continuation = .chain operator) (hpower : power ≤ p.left)
    (h : Reads (part.expression p.right) N ks e) (chain : Chain) :
    Reads (chainStep part power chain) N (k :: ks) (.yield (chain.join operator e)) := by
  refine reads_kind_bind ?_
  simp only [hp, if_neg (Nat.not_lt.mpr hpower), ho]
  exact reads_advance_bind h.map

theorem chainStep_reads_comparison {power : Nat} {k : Kind} {p : Power} {operator : String}
    {chain : Chain} {right : Expr} (hp : Power.of? k = some p)
    (ho : p.continuation = .comparison operator) (hpower : power ≤ p.left)
    (hcompared : chain.compared = false) (h : Reads (comparand part p.right) N ks right) :
    Reads (chainStep part power chain) N (k :: ks)
      (.yield ⟨.binary operator chain.expr right, none, true⟩) := by
  refine reads_kind_bind ?_
  simp only [hp, if_neg (Nat.not_lt.mpr hpower), ho, hcompared]
  exact reads_advance_bind h.map

theorem chainStep_reads_test {power : Nat} {k : Kind} {p : Power} {left e : Expr}
    (hp : Power.of? k = some p) (ho : p.continuation = .test) (hpower : power ≤ p.left)
    (h : Reads (test part left) N (k :: ks) e) :
    Reads (chainStep part power ⟨left, none, false⟩) N (k :: ks) (.yield ⟨e, none, false⟩) := by
  refine reads_kind_bind ?_
  simp only [hp, if_neg (Nat.not_lt.mpr hpower), ho]
  exact h.map

theorem chainStep_reads_nullTest {power : Nat} {k : Kind} {p : Power} {left e : Expr}
    (hp : Power.of? k = some p) (ho : p.continuation = .nullTest) (hpower : power ≤ p.left)
    (h : Reads (nullTest left) N (k :: ks) e) :
    Reads (chainStep part power ⟨left, none, false⟩) N (k :: ks) (.yield ⟨e, none, false⟩) := by
  refine reads_kind_bind ?_
  simp only [hp, if_neg (Nat.not_lt.mpr hpower), ho]
  exact h.map

/-- A run of one operator collects its operands in one operation. -/
theorem foldl_join (operator : String) (first second : Expr) (rest : List Expr) :
    (second :: rest).foldl (·.join operator ·) (⟨first, none, false⟩ : Chain) =
      ⟨.applied operator (first :: second :: rest), some operator, false⟩ := by
  have hrun (es : List Expr) : ∀ done : List Expr,
      es.foldl (·.join operator ·) (⟨.applied operator done, some operator, false⟩ : Chain) =
        ⟨.applied operator (done ++ es), some operator, false⟩ := by
    induction es with
    | nil => simp
    | cons e es ih =>
      intro done
      have hjoin : Chain.join ⟨.applied operator done, some operator, false⟩ operator e =
          ⟨.applied operator (done ++ [e]), some operator, false⟩ := by
        simp [Chain.join, Expr.applied]
      rw [List.foldl_cons, hjoin, ih, List.append_assoc, List.singleton_append]
  have hfirst : Chain.join ⟨first, none, false⟩ operator second =
      ⟨.applied operator [first, second], some operator, false⟩ := by
    simp [Chain.join, Expr.binary, Expr.applied]
  rw [List.foldl_cons, hfirst, hrun, List.cons_append, List.cons_append, List.nil_append]

/-- The word NOT before a test, if it is negated. -/
def notKinds (negated : Bool) : List Kind := if negated then [.keyword .not] else []

theorem test_reads {left e : Expr} {negated : Bool} {word : Keyword} (hword : word ≠ .not)
    (h : Reads (testOf part left negated) N (.keyword word :: ks) e) :
    Reads (test part left) N (notKinds negated ++ .keyword word :: ks) e := by
  cases negated with
  | true => exact reads_accept_bind h rfl
  | false => exact reads_accept_skip h fun _ _ => by simpa [notKinds] using hword

theorem testOf_reads_between {left low high : Expr} {negated : Bool}
    (hlow : Reads (part.expression Power.testOperand) (· = .keyword .and) ks low)
    (hhigh : Reads (part.expression Power.testOperand) N ks' high) :
    Reads (testOf part left negated) N (.keyword .between :: (ks ++ .keyword .and :: ks'))
      (.applied (if negated then Operator.notBetween else Operator.between) [left, low, high]) :=
  reads_kind_bind (reads_advance_bind
    (hlow.bind (reads_keyword_bind hhigh.map) fun _ _ => rfl))

theorem testOf_reads_like {left pattern : Expr} {negated : Bool}
    (h : Reads (part.expression Power.testOperand) N ks pattern) :
    Reads (testOf part left negated) N (.keyword .like :: ks)
      (.binary (if negated then Operator.notLike else Operator.like) left pattern) :=
  reads_kind_bind (reads_advance_bind h.map)

theorem testOf_reads_in {left : Expr} {es : List Expr} {negated : Bool}
    (h : Reads (candidates part) (· = .symbol .rightParen) ks es) :
    Reads (testOf part left negated) N
      (.keyword .in :: .symbol .leftParen :: ks ++ [.symbol .rightParen])
      (.applied (if negated then Operator.notIn else Operator.isIn) (left :: es)) :=
  reads_kind_bind (reads_advance_bind (h.parens (reads_pure _)))

theorem nullTest_reads (left : Expr) (negated : Bool) :
    Reads (nullTest left) N (.keyword .is :: notKinds negated ++ [.keyword .null])
      (.unary (if negated then Operator.isNotNull else Operator.isNull) left) := by
  refine reads_advance_bind ?_
  cases negated with
  | true => exact reads_accept_bind (reads_keyword_bind (reads_pure _)) rfl
  | false => exact reads_accept_skip (reads_keyword_bind (reads_pure _)) fun _ _ => rfl

/-! ## Between parentheses -/

/-- What an expression starts with. -/
def startsOperand (k : Kind) : Bool :=
  k.startsPrimary || k == .keyword .not || k == .symbol .minus || k == .symbol .plus

theorem expression_starts {power : Nat} {c d : Cursor} {e : Expr}
    (h : expression registry part power c = (.ok e, d)) : startsOperand c.current.kind = true := by
  rw [expression] at h
  obtain ⟨first, f, hfirst, -⟩ := bind_ok.mp h
  rw [operand, kind_bind] at hfirst
  split at hfirst
  · rename_i hk
    rw [hk]
    rfl
  · rename_i hk
    rw [hk]
    rfl
  · rename_i hk
    rw [hk]
    rfl
  · simp [startsOperand, primary_starts hfirst]

/-- What stands between parentheses is read by itself. -/
theorem primary_reads_enclosed {es : List Expr} {e : Expr}
    (h : Reads (expressions part) (· = .symbol .rightParen) ks es)
    (hselect : ks.headD (.symbol .rightParen) ≠ .keyword .select)
    (he : es = [e] ∨ 2 ≤ es.length ∧ e = .applied Operator.list es) :
    Reads (primary registry part) N (.symbol .leftParen :: ks ++ [.symbol .rightParen]) e := by
  refine reads_kind_bind ?_
  intro c d hm hd
  have hnext : c.advance.current.kind = ks.headD (.symbol .rightParen) := by
    obtain ⟨f, hm, hm'⟩ := Cursor.Moves.cons hm
    rw [hm.advance, hm'.current]
    cases ks <;> rfl
  change enclosed part c = _
  rw [enclosed, nextKind_bind, hnext, if_neg hselect]
  refine h.parens ?_ hm hd
  obtain rfl | ⟨hlength, rfl⟩ := he
  · exact reads_pure e
  · split
    · simp at hlength
    · exact reads_pure _

theorem enclosedQuery_reads {q : Query Expr}
    (h : Reads part.query (· = .symbol .rightParen) ks q) :
    Reads (enclosedQuery part) N (.symbol .leftParen :: ks ++ [.symbol .rightParen]) q :=
  h.parens (reads_pure q)

theorem primary_reads_query {q : Query Expr}
    (h : Reads part.query (· = .symbol .rightParen) ks q)
    (hselect : ks.headD (.symbol .rightParen) = .keyword .select) :
    Reads (primary registry part) N (.symbol .leftParen :: ks ++ [.symbol .rightParen])
      (.query q) := by
  refine reads_kind_bind ?_
  intro c d hm hd
  have hnext : c.advance.current.kind = .keyword .select := by
    obtain ⟨f, hm, hm'⟩ := Cursor.Moves.cons hm
    rw [hm.advance, hm'.current, ← hselect]
    cases ks <;> rfl
  change enclosed part c = _
  rw [enclosed, nextKind_bind, hnext, if_pos rfl]
  exact (enclosedQuery_reads h).map hm hd

variable {r : Registry}

theorem query_starts {c d : Cursor} {q : Query Expr} (h : (readers r).query c = (.ok q, d)) :
    c.current.kind = .keyword .select := by
  rw [query_readers, query] at h
  obtain ⟨_, e, hselect, -⟩ := bind_ok.mp h
  exact (keyword_ok.mp hselect).current_cons

theorem expressions_starts {c d : Cursor} {es : List Expr}
    (h : expressions (readers r) c = (.ok es, d)) : startsOperand c.current.kind = true := by
  rw [expressions, commaList, expression_readers] at h
  obtain ⟨e, f, he, -⟩ := bind_ok.mp h
  exact expression_starts he

/-- Candidates that are expressions do not start as a query does. -/
theorem candidates_reads {es : List Expr}
    (h : Reads (expressions (readers r)) (· = .symbol .rightParen) ks es) :
    Reads (candidates (readers r)) (· = .symbol .rightParen) ks es := by
  intro c d hm hd
  have hlist := h hm hd
  have hselect : c.current.kind ≠ .keyword .select := by
    intro hk
    have hstarts := expressions_starts hlist
    rw [hk] at hstarts
    cases hstarts
  rw [candidates, kind_bind, if_neg hselect, hlist]

/-! ## Calls -/

theorem argument_reads {e : Expr} (h : Reads ((readers r).expression 0) N ks e) :
    Reads (argument (readers r)) N ks e := by
  intro c d hm hd
  have he := h hm hd
  have hstarts : startsOperand c.current.kind = true := by
    rw [expression_readers] at he
    exact expression_starts he
  have hstar : c.current.kind ≠ .symbol .star := by
    intro hk
    rw [hk] at hstarts
    cases hstarts
  exact acceptSymbol_ite.mpr (.inr ⟨hstar, he⟩)

/-- No argument starts with the closing parenthesis. -/
theorem arguments_reads {args : List Expr}
    (h : Reads (commaList (argument (readers r))) (· = .symbol .rightParen) ks args) :
    Reads (arguments (readers r)) (· = .symbol .rightParen) ks args := by
  intro c d hm hd
  have hargs := h hm hd
  have hparen : c.current.kind ≠ .symbol .rightParen := by
    rw [commaList] at hargs
    obtain ⟨e, f, he, -⟩ := bind_ok.mp hargs
    obtain ⟨g, hstar, -⟩ | ⟨-, hother⟩ := acceptSymbol_ite.mp he
    · simp [hstar.current_cons]
    · rw [expression_readers] at hother
      intro hk
      have hstarts := expression_starts hother
      rw [hk] at hstarts
      cases hstarts
  rw [arguments, kind_bind, if_neg hparen, hargs]

theorem arguments_reads_nil : Reads (arguments part) (· = .symbol .rightParen) [] [] := by
  intro c d hm hd
  obtain rfl := Cursor.moves_nil.mp hm
  rw [arguments, kind_bind, if_pos hd]
  rfl

theorem primary_call {name : String} {c d : Cursor} (hm : c.Moves [.name name] d)
    (hd : d.current.kind = .symbol .leftParen) :
    primary registry part c = callRest registry part name c.current.span d := by
  rw [primary, kind_bind, hm.current_cons]
  dsimp only
  rw [span_bind, advance_bind, hm.advance, kind_bind, hd, if_pos rfl]

/-- Behind the name of a known function all arguments are read before they are counted. -/
theorem callRest_apply {name : String} {arity : Arity} {args : List Expr} {place : Span} {c d : Cursor}
    (harity : registry.arity? name = some arity)
    (hargs : Reads (arguments part) (· = .symbol .rightParen) ks args)
    (hm : c.Moves (.symbol .leftParen :: ks ++ [.symbol .rightParen]) d) :
    callRest registry part name place c =
      if arity.accepts args.length then (.ok (.call name args), d)
      else (.error (.malformed (.argumentCount name arity args.length) (place.merge d.lastSpan)), d) := by
  have hread := hargs.parens (N := fun _ => True) (reads_pure args) hm trivial
  obtain ⟨_, e, hopen, hread⟩ := bind_ok.mp hread
  obtain ⟨_, f, hlist, hread⟩ := bind_ok.mp hread
  obtain ⟨_, g, hclose, hread⟩ := bind_ok.mp hread
  obtain ⟨rfl, rfl⟩ := pure_ok.mp hread
  simp only [callRest, harity, bind_apply, hopen, hlist, hclose]
  split
  · rfl
  · rfl

theorem call_reads {name : String} {arity : Arity} {args : List Expr}
    (harity : registry.arity? name = some arity) (haccepts : arity.accepts args.length = true)
    (h : Reads (arguments part) (· = .symbol .rightParen) ks args) :
    Reads (primary registry part) N (.name name :: (.symbol .leftParen :: ks ++ [.symbol .rightParen]))
      (.call name args) := by
  intro c d hm hd
  obtain ⟨e, hm, hm'⟩ := hm.cons
  rw [primary_call hm hm'.current_cons, callRest_apply harity h hm', if_pos haccepts]

end Grammar

end SqlFront
