import SqlFront.Proofs.Statements

/-! # Readings coupled with each other

Two readings run from the same place. The second does what the first does wherever the first succeeds,
and where the first fails its failure is as described; nothing is said of the second one then. A
`Coupling` says from which places they run and what is said of failures. Main statement: the rules of the
grammar over two registries are coupled, if the second knows the functions of the first with the same
arities and names select items alike.
-/

namespace SqlFront

/-- The token that stands in the place of another, if that is the fault. -/
def Fault.found? : Fault → Option Token.Kind
  | .unexpected _ found => some found
  | _ => none

/-- What is asked of two readings from the same place. -/
structure Coupling where
  /-- The places from which they run. -/
  stands : Cursor → Prop
  /-- The failures that the first may have, with the place where it stops. -/
  failure : ReadError → Cursor → Prop
  stands_reaches : ∀ {c d}, stands c → c.Reaches d → stands d
  unexpected : ∀ {c}, stands c → ∀ expected,
    failure (.malformed (.unexpected expected c.current.kind) c.current.span) c
  other : ∀ {c fault}, fault.found? = none → ∀ span, failure (.malformed fault span) c

namespace Coupling

variable {α β σ : Type} {K : Coupling}

/-- How two readings may end. -/
inductive Ends (K : Coupling) : Except ReadError α × Cursor → Except ReadError α × Cursor → Prop
  | alike {a d} : Ends K (.ok a, d) (.ok a, d)
  | failed {e d x'} : K.failure e d → Ends K (.error e, d) x'

/-- The second reading does what the first does where that succeeds. -/
def Coupled (K : Coupling) (p p' : Reading α) : Prop :=
  ∀ ⦃c⦄, K.stands c → K.Ends (p c) (p' c)

variable {p p' : Reading α} {f f' : α → Reading β}

theorem Coupled.ok (h : K.Coupled p p') {c d : Cursor} {a : α} (hc : K.stands c)
    (hp : p c = (.ok a, d)) : p' c = (.ok a, d) := by
  have hends := h hc
  rw [hp] at hends
  generalize p' c = x' at hends
  cases hends
  rfl

theorem Coupled.error (h : K.Coupled p p') {c d : Cursor} {e : ReadError} (hc : K.stands c)
    (hp : p c = (.error e, d)) : K.failure e d := by
  have hends := h hc
  rw [hp] at hends
  cases hends
  assumption

/-- What is done with a value may rest on where the value comes from. -/
theorem Coupled.bind_read (h : K.Coupled p p')
    (hf : ∀ c a d, K.stands c → p c = (.ok a, d) → K.Coupled (f a) (f' a)) :
    K.Coupled (p >>= f) (p' >>= f') := by
  intro c hc
  have hreaches := p.forward c
  rw [Reading.bind_apply, Reading.bind_apply]
  change c.Reaches (p c).2 at hreaches
  rcases hp : p c with ⟨e | a, d⟩
  · exact .failed (h.error hc hp)
  · rw [hp] at hreaches
    rw [h.ok hc hp]
    exact hf c a d hc hp (K.stands_reaches hc hreaches)

theorem Coupled.bind (h : K.Coupled p p') (hf : ∀ a, K.Coupled (f a) (f' a)) :
    K.Coupled (p >>= f) (p' >>= f') :=
  h.bind_read fun _ a _ _ _ => hf a

/-- A reading that never fails is coupled with itself. -/
theorem coupled_total (h : ∀ c, ∃ a, (p c).1 = .ok a) : K.Coupled p p := by
  intro c _
  obtain ⟨a, ha⟩ := h c
  rcases hp : p c with ⟨x, d⟩
  rw [hp] at ha
  cases ha
  exact .alike

theorem coupled_pure (a : α) : K.Coupled (pure a) (pure a) :=
  coupled_total fun _ => ⟨a, rfl⟩

theorem coupled_kind : K.Coupled Reading.kind Reading.kind :=
  coupled_total fun c => ⟨c.current.kind, rfl⟩

theorem coupled_nextKind : K.Coupled Reading.nextKind Reading.nextKind :=
  coupled_total fun c => ⟨c.advance.current.kind, rfl⟩

theorem coupled_span : K.Coupled Reading.span Reading.span :=
  coupled_total fun c => ⟨c.current.span, rfl⟩

theorem coupled_lastSpan : K.Coupled Reading.lastSpan Reading.lastSpan :=
  coupled_total fun c => ⟨c.lastSpan, rfl⟩

theorem coupled_advance : K.Coupled Reading.advance Reading.advance :=
  coupled_total fun _ => ⟨(), rfl⟩

theorem coupled_toEnd : K.Coupled Reading.toEnd Reading.toEnd :=
  coupled_total fun _ => ⟨(), rfl⟩

theorem coupled_accept (test : Token.Kind → Bool) :
    K.Coupled (Reading.accept test) (Reading.accept test) :=
  coupled_total fun c => ⟨test c.current.kind, by
    unfold Reading.accept
    dsimp only
    split <;> simp_all⟩

theorem coupled_acceptSymbol (sign : Symbol) :
    K.Coupled (Reading.acceptSymbol sign) (Reading.acceptSymbol sign) :=
  coupled_accept _

theorem coupled_acceptKeyword (word : Keyword) :
    K.Coupled (Reading.acceptKeyword word) (Reading.acceptKeyword word) :=
  coupled_accept _

theorem coupled_acceptWord (word : String) :
    K.Coupled (Reading.acceptWord word) (Reading.acceptWord word) :=
  coupled_accept _

theorem coupled_unexpected (expected : Expected) (p' : Reading α) :
    K.Coupled (Reading.unexpected expected) p' :=
  fun _ hc => .failed (K.unexpected hc expected)

theorem coupled_failAt {fault : Fault} (h : fault.found? = none) (span : Span)
    (p' : Reading α) : K.Coupled (Reading.failAt fault span) p' :=
  fun _ _ => .failed (K.other h span)

theorem coupled_discard (h : K.Coupled p p') : K.Coupled (discard p) (discard p') :=
  h.bind fun _ => coupled_pure ()

theorem coupled_unless {b : Bool} {q q' : Reading PUnit} (h : K.Coupled q q') :
    K.Coupled (unless b do q) (unless b do q') := by
  cases b
  · exact h
  · exact coupled_pure _

theorem coupled_symbol (sign : Symbol) : K.Coupled (Reading.symbol sign) (Reading.symbol sign) :=
  (coupled_acceptSymbol sign).bind fun _ => coupled_unless (coupled_unexpected _ _)

theorem coupled_keyword (word : Keyword) :
    K.Coupled (Reading.keyword word) (Reading.keyword word) :=
  (coupled_acceptKeyword word).bind fun _ => coupled_unless (coupled_unexpected _ _)

theorem coupled_word (text : String) : K.Coupled (Reading.word text) (Reading.word text) :=
  (coupled_acceptWord text).bind fun _ => coupled_unless (coupled_unexpected _ _)

theorem coupled_name : K.Coupled Reading.name Reading.name := by
  refine coupled_kind.bind fun k => ?_
  split
  · exact coupled_advance.bind fun _ => coupled_pure _
  · exact coupled_unexpected _ _

/-- Both readings repeat their steps equally often, as both start with the same tokens ahead. -/
theorem coupled_iterate {step step' : σ → Reading (ForInStep σ)}
    (hstep : ∀ s, K.Coupled (step s) (step' s)) (s : σ) :
    K.Coupled (Reading.iterate step s) (Reading.iterate step' s) := by
  have hlimit (limit : Nat) (s : σ) :
      K.Coupled (Reading.iterateAtMost step limit s) (Reading.iterateAtMost step' limit s) := by
    induction limit generalizing s with
    | zero => exact coupled_pure s
    | succ limit ih =>
      refine (hstep s).bind fun turn => ?_
      cases turn with
      | done t => exact coupled_pure t
      | yield t => exact ih t
  exact fun c hc => hlimit (c.ahead.length + 1) s hc

theorem coupled_commaList {item item' : Reading α} (h : K.Coupled item item') :
    K.Coupled (Reading.commaList item) (Reading.commaList item') := by
  refine h.bind fun first => coupled_iterate (fun items => ?_) [first]
  refine (coupled_acceptSymbol .comma).bind fun b => ?_
  cases b
  · exact coupled_pure _
  · exact h.bind fun _ => coupled_pure _

/-- The parts of both sides are coupled. -/
structure Parts (K : Coupling) (part part' : Readers) : Prop where
  expression : ∀ power, K.Coupled (part.expression power) (part'.expression power)
  query : K.Coupled part.query part'.query

/-- Both registries name items alike for the expressions that the parts read. -/
def Names (K : Coupling) (r r' : Registry) (part : Readers) : Prop :=
  ∀ c e d, K.stands c → part.expression 0 c = (.ok e, d) →
    SelectItem.ofExpr r e = SelectItem.ofExpr r' e

end Coupling

/-- The second registry knows the functions of the first, with the same arities. -/
def Registry.Includes (r' r : Registry) : Prop :=
  ∀ name arity, r.arity? name = some arity → r'.arity? name = some arity

theorem Registry.Includes.refl (r : Registry) : r.Includes r := fun _ _ h => h

namespace Grammar

open Reading Coupling

variable {K : Coupling}

/-! ## Expressions -/

section

variable {part part' : Readers} (h : K.Parts part part')

include h

theorem enclosedQuery_coupled : K.Coupled (enclosedQuery part) (enclosedQuery part') :=
  (coupled_symbol _).bind fun _ => h.query.bind fun _ => (coupled_symbol _).bind fun _ =>
    coupled_pure _

theorem expressions_coupled : K.Coupled (expressions part) (expressions part') :=
  coupled_commaList (h.expression 0)

theorem enclosed_coupled : K.Coupled (enclosed part) (enclosed part') := by
  refine coupled_nextKind.bind fun k => ?_
  split
  · exact (enclosedQuery_coupled h).bind fun _ => coupled_pure _
  · refine (coupled_symbol _).bind fun _ => (expressions_coupled h).bind fun items =>
      (coupled_symbol _).bind fun _ => ?_
    split <;> exact coupled_pure _

omit h in
theorem columnRest_coupled (first : String) :
    K.Coupled (columnRest first) (columnRest first) := by
  refine (coupled_iterate (fun text => ?_) first).bind fun _ => coupled_pure _
  refine (coupled_acceptSymbol .dot).bind fun b => ?_
  cases b
  · exact coupled_pure _
  · refine (coupled_acceptSymbol .star).bind fun b => ?_
    cases b
    · exact coupled_name.bind fun _ => coupled_pure _
    · exact coupled_pure _

theorem argument_coupled : K.Coupled (argument part) (argument part') := by
  refine (coupled_acceptSymbol .star).bind fun b => ?_
  cases b
  · exact h.expression 0
  · exact coupled_pure _

theorem arguments_coupled : K.Coupled (arguments part) (arguments part') := by
  refine coupled_kind.bind fun k => ?_
  split
  · exact coupled_pure _
  · exact coupled_commaList (argument_coupled h)

/-- A function that is known stays known. Of one that is not nothing is said. -/
theorem callRest_coupled {r r' : Registry} (hr : r'.Includes r) (name : String) (place : Span) :
    K.Coupled (callRest r part name place) (callRest r' part' name place) := by
  unfold callRest
  cases harity : r.arity? name with
  | none => exact coupled_failAt rfl _ _
  | some arity =>
    rw [hr name arity harity]
    refine (coupled_symbol _).bind fun _ => (arguments_coupled h).bind fun args =>
      (coupled_symbol _).bind fun _ => ?_
    split
    · exact coupled_pure _
    · exact coupled_lastSpan.bind fun _ => coupled_failAt rfl _ _

theorem primary_coupled {r r' : Registry} (hr : r'.Includes r) :
    K.Coupled (primary r part) (primary r' part') := by
  refine coupled_kind.bind fun k => ?_
  split
  · exact coupled_advance.bind fun _ => coupled_pure _
  · exact coupled_advance.bind fun _ => coupled_pure _
  · exact coupled_advance.bind fun _ => coupled_pure _
  · exact coupled_advance.bind fun _ => coupled_pure _
  · exact coupled_advance.bind fun _ => (enclosedQuery_coupled h).bind fun _ => coupled_pure _
  · exact enclosed_coupled h
  · refine coupled_span.bind fun place => coupled_advance.bind fun _ => coupled_kind.bind fun k => ?_
    split
    · exact callRest_coupled h hr _ _
    · exact columnRest_coupled _
  · exact coupled_unexpected _ _

theorem operand_coupled {r r' : Registry} (hr : r'.Includes r) :
    K.Coupled (operand r part) (operand r' part') := by
  refine coupled_kind.bind fun k => ?_
  split
  · exact coupled_advance.bind fun _ => (h.expression _).bind fun _ => coupled_pure _
  · exact coupled_advance.bind fun _ => (h.expression _).bind fun _ => coupled_pure _
  · exact coupled_advance.bind fun _ => h.expression _
  · exact primary_coupled h hr

theorem comparand_coupled (power : Nat) :
    K.Coupled (comparand part power) (comparand part' power) := by
  refine coupled_kind.bind fun k => ?_
  have hquery (o : String) : K.Coupled
      (do advance; return Expr.unary o (.query (← enclosedQuery part)))
      (do advance; return Expr.unary o (.query (← enclosedQuery part'))) :=
    coupled_advance.bind fun _ => (enclosedQuery_coupled h).bind fun _ => coupled_pure _
  split
  · exact hquery _
  · exact hquery _
  · exact hquery _
  · exact h.expression power

theorem candidates_coupled : K.Coupled (candidates part) (candidates part') := by
  refine coupled_kind.bind fun k => ?_
  split
  · exact h.query.bind fun _ => coupled_pure _
  · exact expressions_coupled h

theorem testOf_coupled (left : Expr) (negated : Bool) :
    K.Coupled (testOf part left negated) (testOf part' left negated) := by
  refine coupled_kind.bind fun k => ?_
  split
  · exact coupled_advance.bind fun _ => (h.expression _).bind fun _ => (coupled_keyword _).bind
      fun _ => (h.expression _).bind fun _ => coupled_pure _
  · exact coupled_advance.bind fun _ => (h.expression _).bind fun _ => coupled_pure _
  · exact coupled_advance.bind fun _ => (coupled_symbol _).bind fun _ =>
      (candidates_coupled h).bind fun _ => (coupled_symbol _).bind fun _ => coupled_pure _
  · exact coupled_unexpected _ _

theorem test_coupled (left : Expr) : K.Coupled (test part left) (test part' left) :=
  (coupled_acceptKeyword _).bind (testOf_coupled h left)

omit h in
theorem nullTest_coupled (left : Expr) : K.Coupled (nullTest left) (nullTest left) :=
  coupled_advance.bind fun _ => (coupled_acceptKeyword _).bind fun _ => (coupled_keyword _).bind
    fun _ => coupled_pure _

theorem chainStep_coupled (power : Nat) (chain : Chain) :
    K.Coupled (chainStep part power chain) (chainStep part' power chain) := by
  refine coupled_kind.bind fun k => ?_
  split
  · exact coupled_pure _
  · split
    · exact coupled_pure _
    · split
      · exact (nullTest_coupled _).bind fun _ => coupled_pure _
      · exact (test_coupled h _).bind fun _ => coupled_pure _
      · split
        · exact coupled_span.bind fun _ => coupled_failAt rfl _ _
        · exact coupled_advance.bind fun _ => (comparand_coupled h _).bind fun _ => coupled_pure _
      · exact coupled_advance.bind fun _ => (h.expression _).bind fun _ => coupled_pure _

theorem expression_coupled {r r' : Registry} (hr : r'.Includes r) (power : Nat) :
    K.Coupled (expression r part power) (expression r' part' power) :=
  (operand_coupled h hr).bind fun _ => (coupled_iterate (chainStep_coupled h power) _).bind fun _ =>
    coupled_pure _

end

/-! ## Queries -/

theorem dottedName_coupled : K.Coupled dottedName dottedName := by
  refine coupled_name.bind fun first => coupled_iterate (fun text => ?_) first
  refine (coupled_acceptSymbol .dot).bind fun b => ?_
  cases b
  · exact coupled_pure _
  · exact coupled_name.bind fun _ => coupled_pure _

theorem name?_coupled : K.Coupled name? name? := by
  refine coupled_kind.bind fun k => ?_
  split
  · exact coupled_advance.bind fun _ => coupled_pure _
  · exact coupled_pure _

theorem optionalAlias_coupled : K.Coupled optionalAlias optionalAlias := by
  refine (coupled_acceptKeyword _).bind fun b => ?_
  cases b
  · exact name?_coupled
  · exact coupled_name.bind fun _ => coupled_pure _

theorem source_coupled : K.Coupled source source := by
  refine dottedName_coupled.bind fun table => optionalAlias_coupled.bind fun a => ?_
  cases a <;> exact coupled_pure _

theorem setOperator?_coupled : K.Coupled setOperator? setOperator? := by
  refine coupled_kind.bind fun k => ?_
  split
  · refine coupled_advance.bind fun _ => (coupled_acceptKeyword _).bind fun b => ?_
    cases b <;> exact coupled_pure _
  · exact coupled_advance.bind fun _ => coupled_pure _
  · exact coupled_advance.bind fun _ => coupled_pure _
  · exact coupled_advance.bind fun _ => coupled_pure _
  · exact coupled_pure _

theorem forUpdate_coupled : K.Coupled forUpdate forUpdate := by
  refine (coupled_acceptKeyword _).bind fun b => ?_
  cases b
  · exact coupled_pure _
  · exact (coupled_keyword _).bind fun _ => coupled_pure _

theorem distinct_coupled : K.Coupled distinct distinct := by
  refine (coupled_acceptKeyword _).bind fun b => ?_
  cases b
  · exact (coupled_discard (coupled_acceptKeyword _)).bind fun _ => coupled_pure _
  · exact coupled_pure _

section

variable {r r' : Registry} {part part' : Readers} (h : K.Parts part part')

include h

/-- The name of an item is where the registry counts besides calls. -/
theorem selectItem_coupled (hnames : K.Names r r' part) :
    K.Coupled (selectItem r part) (selectItem r' part') := by
  refine (coupled_acceptSymbol .star).bind fun b => ?_
  cases b
  · refine (h.expression 0).bind_read fun c e d hc he => ?_
    rw [hnames c e d hc he]
    refine optionalAlias_coupled.bind fun a => ?_
    cases a <;> exact coupled_pure _
  · exact coupled_pure _

theorem clause?_coupled (word : Keyword) : K.Coupled (clause? part word) (clause? part' word) := by
  refine (coupled_acceptKeyword _).bind fun b => ?_
  cases b
  · exact coupled_pure _
  · exact (h.expression 0).bind fun _ => coupled_pure _

theorem groupBy?_coupled : K.Coupled (groupBy? part) (groupBy? part') := by
  refine (coupled_acceptKeyword _).bind fun b => ?_
  cases b
  · exact coupled_pure _
  · exact (coupled_keyword _).bind fun _ => (expressions_coupled h).bind fun _ =>
      (clause?_coupled h .having).bind fun _ => coupled_pure _

theorem joinedQuery_coupled : K.Coupled (joinedQuery part) (joinedQuery part') := by
  refine coupled_kind.bind fun k => ?_
  split
  · exact enclosedQuery_coupled h
  · exact h.query

theorem setOperation?_coupled : K.Coupled (setOperation? part) (setOperation? part') := by
  refine setOperator?_coupled.bind fun operator => ?_
  cases operator
  · exact coupled_pure _
  · exact (joinedQuery_coupled h).bind fun _ => coupled_pure _

theorem orderEntry_coupled : K.Coupled (orderEntry part) (orderEntry part') := by
  refine (h.expression 0).bind fun e => (coupled_acceptKeyword _).bind fun b => ?_
  cases b
  · exact (coupled_discard (coupled_acceptKeyword _)).bind fun _ => coupled_pure _
  · exact coupled_pure _

theorem orderBy_coupled : K.Coupled (orderBy part) (orderBy part') := by
  refine (coupled_acceptKeyword _).bind fun b => ?_
  cases b
  · exact coupled_pure _
  · exact (coupled_keyword _).bind fun _ => coupled_commaList (orderEntry_coupled h)

theorem query_coupled (hnames : K.Names r r' part) : K.Coupled (query r part) (query r' part') :=
  (coupled_keyword _).bind fun _ =>
  distinct_coupled.bind fun _ =>
  (coupled_commaList (selectItem_coupled h hnames)).bind fun _ =>
  (coupled_keyword _).bind fun _ =>
  (coupled_commaList source_coupled).bind fun _ =>
  (clause?_coupled h .where).bind fun _ =>
  (groupBy?_coupled h).bind fun _ =>
  (setOperation?_coupled h).bind fun _ =>
  (orderBy_coupled h).bind fun _ =>
  forUpdate_coupled.bind fun _ => coupled_pure _

end

/-- Readers of every depth are coupled. -/
theorem readersOfDepth_coupled {r r' : Registry} (hr : r'.Includes r)
    (hnames : ∀ depth, K.Names r r' (readersOfDepth r depth)) (depth : Nat) :
    K.Parts (readersOfDepth r depth) (readersOfDepth r' depth) := by
  induction depth with
  | zero => exact ⟨fun _ => coupled_unexpected _ _, coupled_unexpected _ _⟩
  | succ depth ih => exact ⟨expression_coupled ih hr, query_coupled ih (hnames depth)⟩

theorem readers_coupled {r r' : Registry} (hr : r'.Includes r)
    (hnames : ∀ depth, K.Names r r' (readersOfDepth r depth)) :
    K.Parts (readers r) (readers r') where
  expression power _ hc := (readersOfDepth_coupled hr hnames _).expression power hc
  query _ hc := (readersOfDepth_coupled hr hnames _).query hc

/-! ## Statements -/

theorem terminator_coupled : K.Coupled terminator terminator := by
  refine (coupled_acceptSymbol _).bind fun _ => coupled_unless (coupled_kind.bind fun k => ?_)
  split
  · exact coupled_pure _
  · exact coupled_unexpected _ _

theorem emptyStatements_coupled : K.Coupled emptyStatements emptyStatements := by
  refine coupled_iterate (fun _ => (coupled_acceptSymbol _).bind fun b => ?_) ()
  cases b <;> exact coupled_pure _

theorem insertColumns?_coupled : K.Coupled insertColumns? insertColumns? := by
  refine coupled_kind.bind fun k => ?_
  split
  · refine coupled_nextKind.bind fun k => ?_
    split
    · exact coupled_pure _
    · exact coupled_advance.bind fun _ => (coupled_commaList dottedName_coupled).bind fun _ =>
        (coupled_symbol _).bind fun _ => coupled_pure _
  · exact coupled_pure _

theorem lockMode_coupled : K.Coupled lockMode lockMode := by
  refine (coupled_acceptWord _).bind fun b => ?_
  cases b
  · refine (coupled_acceptWord _).bind fun b => ?_
    cases b
    · refine (coupled_acceptWord _).bind fun b => ?_
      cases b
      · exact coupled_unexpected _ _
      · exact coupled_pure _
    · refine (coupled_acceptKeyword _).bind fun b => ?_
      cases b
      · refine (coupled_acceptWord _).bind fun b => ?_
        cases b
        · exact coupled_pure _
        · exact (coupled_word _).bind fun _ => coupled_pure _
      · exact coupled_pure _
  · refine (coupled_acceptWord _).bind fun b => ?_
    cases b
    · exact (coupled_word _).bind fun _ => coupled_pure _
    · exact coupled_pure _

theorem lock_coupled : K.Coupled lock lock :=
  (coupled_word _).bind fun _ => (coupled_word _).bind fun _ =>
  (coupled_commaList dottedName_coupled).bind fun _ => (coupled_keyword _).bind fun _ =>
  lockMode_coupled.bind fun _ => (coupled_word _).bind fun _ => (coupled_acceptWord _).bind fun _ =>
  coupled_pure _

theorem ending_coupled : K.Coupled ending ending := by
  refine (coupled_acceptWord _).bind fun b => ?_
  cases b
  · exact (coupled_word _).bind fun _ => coupled_pure _
  · exact coupled_pure _

theorem comment?_coupled : K.Coupled comment? comment? := by
  refine (coupled_acceptWord _).bind fun b => ?_
  cases b
  · exact coupled_pure _
  · refine coupled_kind.bind fun k => ?_
    split
    · exact coupled_advance.bind fun _ => coupled_pure _
    · exact coupled_unexpected _ _

theorem endTransaction_coupled : K.Coupled endTransaction endTransaction :=
  ending_coupled.bind fun _ => (coupled_discard (coupled_acceptWord _)).bind fun _ =>
  comment?_coupled.bind fun _ => coupled_pure _

theorem setTransaction_coupled : K.Coupled setTransaction setTransaction := by
  refine (coupled_keyword _).bind fun _ => (coupled_word _).bind fun _ => (coupled_word _).bind
    fun _ => (coupled_acceptWord _).bind fun b => ?_
  cases b
  · exact (coupled_word _).bind fun _ => coupled_pure _
  · exact coupled_pure _

section

variable {r r' : Registry} (h : K.Parts (readers r) (readers r'))

include h

theorem insertSource_coupled : K.Coupled (insertSource r) (insertSource r') := by
  refine coupled_kind.bind fun k => ?_
  split
  · exact coupled_advance.bind fun _ => (coupled_symbol _).bind fun _ =>
      (expressions_coupled h).bind fun _ => (coupled_symbol _).bind fun _ => coupled_pure _
  · exact h.query.bind fun _ => coupled_pure _
  · exact (enclosedQuery_coupled h).bind fun _ => coupled_pure _
  · exact coupled_unexpected _ _

theorem insert_coupled : K.Coupled (insert r) (insert r') :=
  (coupled_keyword _).bind fun _ => (coupled_keyword _).bind fun _ =>
  dottedName_coupled.bind fun _ => insertColumns?_coupled.bind fun _ =>
  (insertSource_coupled h).bind fun _ => coupled_pure _

theorem assignment_coupled : K.Coupled (assignment r) (assignment r') :=
  dottedName_coupled.bind fun _ => (coupled_symbol _).bind fun _ => (h.expression 0).bind fun _ =>
  coupled_pure _

theorem update_coupled : K.Coupled (update r) (update r') := by
  have hwritten : K.Coupled (updateAsWritten r) (updateAsWritten r') :=
    (coupled_keyword _).bind fun _ => dottedName_coupled.bind fun _ => name?_coupled.bind fun _ =>
    (coupled_keyword _).bind fun _ => (coupled_commaList (assignment_coupled h)).bind fun _ =>
    (clause?_coupled h .where).bind fun _ => coupled_pure _
  exact hwritten.bind fun _ => coupled_pure _

theorem delete_coupled : K.Coupled (delete r) (delete r') :=
  (coupled_keyword _).bind fun _ => (coupled_discard (coupled_acceptKeyword _)).bind fun _ =>
  dottedName_coupled.bind fun _ => (clause?_coupled h .where).bind fun _ => coupled_pure _

theorem statement_coupled : K.Coupled (statement r) (statement r') := by
  refine coupled_kind.bind fun first => ?_
  split
  · exact h.query.bind fun _ => coupled_pure _
  · exact (insert_coupled h).bind fun _ => coupled_pure _
  · exact (update_coupled h).bind fun _ => coupled_pure _
  · exact (delete_coupled h).bind fun _ => coupled_pure _
  · exact setTransaction_coupled.bind fun _ => coupled_pure _
  · split
    · exact lock_coupled.bind fun _ => coupled_pure _
    · split
      · exact endTransaction_coupled.bind fun _ => coupled_pure _
      · exact coupled_unexpected _ _

theorem statement?_coupled : K.Coupled (statement? r) (statement? r') := by
  refine emptyStatements_coupled.bind fun _ => coupled_kind.bind fun first => ?_
  split
  · exact coupled_pure _
  · split
    · exact coupled_toEnd.bind fun _ => coupled_pure _
    · exact (statement_coupled h).bind fun _ => terminator_coupled.bind fun _ => coupled_pure _

theorem statements_coupled : K.Coupled (statements r) (statements r') := by
  refine coupled_iterate (fun done => (statement?_coupled h).bind fun next => ?_) []
  cases next <;> exact coupled_pure _

theorem condition_coupled : K.Coupled (condition r) (condition r') :=
  (coupled_discard (coupled_acceptKeyword _)).bind fun _ => (h.expression 0).bind fun _ =>
  terminator_coupled.bind fun _ => coupled_pure _

theorem call_coupled (call : Call) : K.Coupled (call.reading r) (call.reading r') := by
  cases call with
  | statement => exact (statement?_coupled h).bind fun _ => coupled_pure _
  | statements => exact (statements_coupled h).bind fun _ => coupled_pure _
  | condition => exact (condition_coupled h).bind fun _ => coupled_pure _

end

end Grammar

end SqlFront
