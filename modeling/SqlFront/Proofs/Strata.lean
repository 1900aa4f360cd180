import SqlFront.Proofs.RoundTrip

/-! # Operators level by level

The grammar of the infix operators with one level for every strength of binding. A sequence of
operands is split at the operators of the loosest level, the segments are built with the tighter
levels, and the trees of the segments are put together from the left.
Main statement: a condition that is such a sequence is read as the tree that the levels give, or
not at all if a segment is compared twice.
-/

namespace SqlFront

/-- The strengths with which infix operators bind. -/
inductive Level where
  | or | and | comparison | sum | product | power
  deriving DecidableEq, Repr

/-- The infix operators. -/
inductive Infix where
  | or | and
  | equal | notEqual | lessGreater | hash | less | lessEqual | greater | greaterEqual
  | plus | minus | concat
  | times | divide
  | power
  deriving DecidableEq, Repr

namespace Level

/-- From the loosest to the tightest. -/
def all : List Level := [.or, .and, .comparison, .sum, .product, .power]

/-- The power with which the operators of the level take the operand before them. -/
def left : Level → Nat
  | .or => 1
  | .and => 3
  | .comparison => 7
  | .sum => 13
  | .product => 15
  | .power => 17

end Level

namespace Infix

def level : Infix → Level
  | .or => .or
  | .and => .and
  | .equal | .notEqual | .lessGreater | .hash | .less | .lessEqual | .greater | .greaterEqual =>
    .comparison
  | .plus | .minus | .concat => .sum
  | .times | .divide => .product
  | .power => .power

/-- The token of an operator. -/
def kind : Infix → Token.Kind
  | .or => .keyword .or
  | .and => .keyword .and
  | .equal => .symbol .equal
  | .notEqual => .symbol .notEqual
  | .lessGreater => .symbol .lessGreater
  | .hash => .symbol .hash
  | .less => .symbol .less
  | .lessEqual => .symbol .lessEqual
  | .greater => .symbol .greater
  | .greaterEqual => .symbol .greaterEqual
  | .plus => .symbol .plus
  | .minus => .symbol .minus
  | .concat => .symbol .concat
  | .times => .symbol .star
  | .divide => .symbol .slash
  | .power => .symbol .power

/-- The text of an operator in the operations that it makes. -/
def text : Infix → String
  | .or => "OR"
  | .and => "AND"
  | .equal => "="
  | .notEqual => "!="
  | .lessGreater => "<>"
  | .hash => "#"
  | .less => "<"
  | .lessEqual => "<="
  | .greater => ">"
  | .greaterEqual => ">="
  | .plus => "+"
  | .minus => "-"
  | .concat => "||"
  | .times => "*"
  | .divide => "/"
  | .power => "**"

/-- The level of an operator, given its text. -/
def levelOf? (text : String) : Option Level :=
  if text = "OR" then some .or
  else if text = "AND" then some .and
  else if text ∈ Operator.comparisons then some .comparison
  else if text ∈ ["+", "-", "||"] then some .sum
  else if text ∈ ["*", "/"] then some .product
  else if text = "**" then some .power
  else none

theorem levelOf?_text (o : Infix) : levelOf? o.text = some o.level := by
  cases o <;> decide

/-- Operators of one text are of one level. -/
theorem level_eq {o o' : Infix} (h : o.text = o'.text) : o.level = o'.level := by
  have hlevel := levelOf?_text o
  rw [h, levelOf?_text] at hlevel
  exact (Option.some.inj hlevel).symm

theorem of?_kind_comparison {o : Infix} (h : o.level = .comparison) :
    Power.of? o.kind = some ⟨o.level.left, o.level.left + 1, .comparison o.text⟩ := by
  cases o <;> first
    | rfl
    | cases h

theorem of?_kind_chain {o : Infix} (h : o.level ≠ .comparison) :
    Power.of? o.kind = some ⟨o.level.left, o.level.left + 1, .chain o.text⟩ := by
  cases o <;> first
    | rfl
    | exact absurd rfl h

/-- What an operator reads ends before the next operator of its level. -/
theorem stops_kind (o : Infix) : o.kind.stops (o.level.left + 1) = true := by
  by_cases h : o.level = .comparison
  · exact Token.Kind.stops_operator (of?_kind_comparison h)
  · exact Token.Kind.stops_operator (of?_kind_chain h)

end Infix

open Reading

/-! ## Sequences of operands -/

/-- The parts of an operand that has parentheses: what the parser reads in front of a comma or
    the closing parenthesis. -/
def Rules.enclosed (r : Registry) : Rules where
  expression power ks e :=
    Reads ((Grammar.readers r).expression power) (· ∈ [.symbol .comma, .symbol .rightParen]) ks e
  query ks q := Reads (Grammar.readers r).query (· = .symbol .rightParen) ks q

/-- An operand that no operator splits: a number, a text, NULL, a parameter, a column, a call, or
    something between parentheses. -/
structure Leaf (r : Registry) where
  kinds : List Token.Kind
  expr : Expr
  rule : Rule.Primary r (.enclosed r) kinds expr

/-- An operand with infix operators and operands behind it. -/
structure Sequence (r : Registry) where
  first : Leaf r
  rest : List (Infix × Leaf r)

namespace Sequence

variable {r : Registry}

/-- The tokens of operators with their right operands. -/
def restKinds (rest : List (Infix × Leaf r)) : List Token.Kind :=
  rest.flatMap fun (o, leaf) => o.kind :: leaf.kinds

/-- The tokens of a sequence. -/
def kinds (s : Sequence r) : List Token.Kind := s.first.kinds ++ restKinds s.rest

/-- Operators with their right operands, up to the first operator of a level, and what stands behind
    each operator of the level. -/
def cut (l : Level) : List (Infix × Leaf r) → List (Infix × Leaf r) × List (Infix × Sequence r)
  | [] => ([], [])
  | (o, leaf) :: rest =>
    let behind := cut l rest
    if o.level = l then ([], (o, ⟨leaf, behind.1⟩) :: behind.2)
    else ((o, leaf) :: behind.1, behind.2)

/-- The first segment of a sequence that is split at a level, and the others behind their
    operators. -/
def split (l : Level) (s : Sequence r) : Sequence r × List (Infix × Sequence r) :=
  (⟨s.first, (cut l s.rest).1⟩, (cut l s.rest).2)

/-- What the trees of segments have been put together to: the tree of the first one by itself, or
    the operation of the operator that came last. -/
inductive Folded where
  | operand (e : Expr)
  | operation (operator : String) (operands : List Expr)

/-- One more segment. A run of one operator becomes one operation. -/
def Folded.extend (operator : String) (e : Expr) : Folded → Folded
  | .operand first => .operation operator [first, e]
  | .operation last operands =>
    if last = operator then .operation last (operands ++ [e])
    else .operation operator [.applied last operands, e]

def Folded.tree : Folded → Expr
  | .operand e => e
  | .operation operator operands => .applied operator operands

/-- What segments behind their operators are put together to, each with the tree that is built for it. -/
def fold (build : Sequence r → Option Expr) : List (Infix × Sequence r) → Folded → Option Folded
  | [], folded => some folded
  | (o, segment) :: others, folded => do fold build others (folded.extend o.text (← build segment))

/-- The tree of a sequence of operators of the given levels, from the loosest to the tightest. There
    is none if a segment is compared twice. -/
def tree? : List Level → Sequence r → Option Expr
  | [], s => some s.first.expr
  | l :: tighter, s =>
    if l = .comparison ∧ 2 ≤ (s.split l).2.length then none
    else do
      let first ← tree? tighter (s.split l).1
      return (← fold (tree? tighter) (s.split l).2 (.operand first)).tree

/-! ## Splitting -/

/-- The tokens of segments behind their operators. -/
def othersKinds (others : List (Infix × Sequence r)) : List Token.Kind :=
  others.flatMap fun (o, segment) => o.kind :: segment.kinds

/-- The operators are of the given levels. -/
def Within (levels : List Level) (rest : List (Infix × Leaf r)) : Prop :=
  ∀ o leaf, (o, leaf) ∈ rest → o.level ∈ levels

variable {l : Level} {tighter : List Level} {rest : List (Infix × Leaf r)}

theorem cut_here {o : Infix} (h : o.level = l) (leaf : Leaf r) (rest : List (Infix × Leaf r)) :
    cut l ((o, leaf) :: rest) = ([], (o, ⟨leaf, (cut l rest).1⟩) :: (cut l rest).2) :=
  if_pos h

theorem cut_later {o : Infix} (h : o.level ≠ l) (leaf : Leaf r) (rest : List (Infix × Leaf r)) :
    cut l ((o, leaf) :: rest) = ((o, leaf) :: (cut l rest).1, (cut l rest).2) :=
  if_neg h

theorem cut_kinds (l : Level) (rest : List (Infix × Leaf r)) :
    restKinds (cut l rest).1 ++ othersKinds (cut l rest).2 = restKinds rest := by
  induction rest with
  | nil => rfl
  | cons link rest ih =>
    obtain ⟨o, leaf⟩ := link
    simp only [restKinds, othersKinds, kinds] at ih
    by_cases h : o.level = l
    · simp [cut_here h, restKinds, othersKinds, kinds, ← ih]
    · simp [cut_later h, restKinds, othersKinds, kinds, ← ih]

theorem cut_within (h : Within (l :: tighter) rest) :
    Within tighter (cut l rest).1 ∧
      ∀ o segment, (o, segment) ∈ (cut l rest).2 → o.level = l ∧ Within tighter segment.rest := by
  induction rest with
  | nil => simp [cut, Within]
  | cons link rest ih =>
    obtain ⟨o, leaf⟩ := link
    obtain ⟨hsegment, hothers⟩ := ih fun o leaf hmem => h o leaf (List.mem_cons_of_mem _ hmem)
    by_cases ho : o.level = l
    · rw [cut_here ho]
      refine ⟨by simp [Within], fun o' segment hmem => ?_⟩
      obtain heq | hmem := List.mem_cons.mp hmem
      · obtain ⟨rfl, rfl⟩ := Prod.mk.inj heq
        exact ⟨ho, hsegment⟩
      · exact hothers o' segment hmem
    · rw [cut_later ho]
      refine ⟨fun o' leaf' hmem => ?_, hothers⟩
      obtain heq | hmem := List.mem_cons.mp hmem
      · obtain ⟨rfl, rfl⟩ := Prod.mk.inj heq
        exact (List.mem_cons.mp (h _ _ (List.mem_cons_self ..))).resolve_left ho
      · exact hsegment o' leaf' hmem

end Sequence

namespace Reading

open Token

/-! ## Readings that stop at a second comparison -/

variable {α β σ : Type} {p : Reading α} {f : α → Reading β} {a : α} {k : Kind}
  {ks ks' : List Kind} {M N : Kind → Prop} {step : σ → Reading (ForInStep σ)} {s t : σ}

/-- The reading stops at a comparison of what has been compared before, if the token behind tokens
    of these kinds is as described. -/
def Chained (p : Reading α) (N : Kind → Prop) (ks : List Kind) : Prop :=
  ∀ ⦃c d⦄, c.Moves ks d → N d.current.kind →
    ∃ place e, p c = (.error (.malformed .chainedComparison place), e)

/-- The reading gives the value, or stops at a second comparison if there is none. -/
def Gives (p : Reading α) (N : Kind → Prop) (ks : List Kind) : Option α → Prop
  | some a => Reads p N ks a
  | none => Chained p N ks

theorem Gives.weaken {x : Option α} (h : Gives p M ks x) (hN : ∀ k, N k → M k) : Gives p N ks x := by
  cases x with
  | some a => exact Reads.weaken h hN
  | none => exact fun c d hm hd => h hm (hN _ hd)

theorem Chained.append (h : Chained p M ks) (hM : ∀ k, N k → M (ks'.headD k)) :
    Chained p N (ks ++ ks') := by
  intro c d hm hd
  obtain ⟨e, hm, hm'⟩ := hm.split
  exact h hm (hm'.current ▸ hM _ hd)

theorem Chained.bind (h : Chained p N ks) : Chained (p >>= f) N ks := by
  intro c d hm hd
  obtain ⟨place, e, hp⟩ := h hm hd
  exact ⟨place, e, by rw [bind_apply, hp]⟩

theorem Reads.bind_chained (h : Reads p M ks a) (hf : Chained (f a) N ks')
    (hM : ∀ k, N k → M (ks'.headD k)) : Chained (p >>= f) N (ks ++ ks') := by
  intro c d hm hd
  obtain ⟨e, hm, hm'⟩ := hm.split
  obtain ⟨place, e', hfail⟩ := hf hm' hd
  refine ⟨place, e', ?_⟩
  rw [bind_apply, h hm (hm'.current ▸ hM _ hd)]
  exact hfail

theorem chained_kind_bind {f : Kind → Reading β} (h : Chained (f k) N (k :: ks)) :
    Chained (kind >>= f) N (k :: ks) := by
  intro c d hm hd
  rw [kind_bind, hm.current_cons]
  exact h hm hd

theorem chained_advance_bind {f : Unit → Reading β} (h : Chained (f ()) N ks) :
    Chained (Reading.advance >>= f) N (k :: ks) := by
  intro c d hm hd
  obtain ⟨e, hm, hm'⟩ := hm.cons
  rw [advance_bind, hm.advance]
  exact h hm' hd

theorem Chained.iterate (h : Chained (step s) N ks) (hstep : Progress step) :
    Chained (iterate step s) N ks := by
  rw [iterate_eq hstep]
  exact h.bind

theorem Goes.chained (h : Goes step M s ks t) (hrest : Chained (iterate step t) N ks')
    (hM : ∀ k, N k → M (ks'.headD k)) : Chained (iterate step s) N (ks ++ ks') := by
  intro c d hm hd
  obtain ⟨e, hm, hm'⟩ := hm.split
  rw [h hm (hm'.current ▸ hM _ hd)]
  exact hrest hm' hd

end Reading

namespace Grammar

open Token Kind

variable {r : Registry} {N M : Kind → Prop} {ks : List Kind}

/-! ## Operands -/

/-- A list with commas is read if its items are. -/
theorem commaList_reads {α : Type} {item : Reading α} {R : Rule α} {as : List α}
    (hitem : ∀ ks a, R ks a → Reads item M ks a) (h : Rule.Listed R ks as)
    (hcomma : M (.symbol .comma)) (hN : ∀ k, N k → M k) (hstop : ¬ N (.symbol .comma)) :
    Reads (commaList item) N ks as := by
  have hstep (items : List α) {ks : List Kind} {a : α} (h : R ks a) :
      Reads (do
        if ← acceptSymbol .comma then return ForInStep.yield (items ++ [← item])
        else return .done items) M (.symbol .comma :: ks) (.yield (items ++ [a])) :=
    reads_accept_then (hitem _ _ h).map (by simp)
  have hgoes : ∃ first ks' rest, ks = ks' ++ rest ∧ R ks' first ∧ (∀ k, M k → M (rest.headD k)) ∧
      Goes (fun items : List α => do
        if ← acceptSymbol .comma then return ForInStep.yield (items ++ [← item])
        else return .done items) M [first] rest as := by
    induction h with
    | @one ks a h => exact ⟨a, ks, [], (List.append_nil ks).symm, h, fun _ hk => hk, goes_refl _⟩
    | @more ks as ks' a _ h ih =>
      obtain ⟨first, ks, rest, rfl, hfirst, hhead, hgoes⟩ := ih
      refine ⟨first, ks, rest ++ .symbol .comma :: ks', List.append_assoc .., hfirst,
        fun k hk => ?_, hgoes.trans ((hstep as h).goes (progress_commaList item)) fun _ _ => hcomma⟩
      cases rest with
      | nil => exact hcomma
      | cons => exact hhead k hk
  obtain ⟨first, ks, rest, rfl, hfirst, hhead, hgoes⟩ := hgoes
  refine (hitem _ _ hfirst).bind (hgoes.stop (reads_accept_else (reads_pure _) fun k hk => ?_) hN
    (progress_commaList item)) fun k hk => hhead k (hN k hk)
  have hother : k ≠ .symbol .comma := by
    rintro rfl
    exact hstop hk
  simpa using hother

/-- What the rules take for expressions and queries is read as such between parentheses. -/
structure Readable (r : Registry) (rules : Rules) : Prop where
  expression : ∀ ks e, rules.expression 0 ks e →
    Reads ((readers r).expression 0) (· ∈ [.symbol .comma, .symbol .rightParen]) ks e
  query : ∀ ks q, rules.query ks q → Reads (readers r).query (· = .symbol .rightParen) ks q

section

variable {rules : Rules} (hrules : Readable r rules)

include hrules

/-- Something between parentheses is read as its parts are. -/
theorem enclosed_reads {es : List Expr} {e : Expr}
    (h : Rule.Enclosed (Rule.Listed (rules.expression 0)) ks es)
    (he : es = [e] ∨ 2 ≤ es.length ∧ e = .applied Operator.list es) :
    Reads (primary r (readers r)) N ks e := by
  obtain @⟨ks, _, h⟩ := h
  have hlist : Reads (expressions (readers r)) (· = .symbol .rightParen) ks es :=
    commaList_reads hrules.expression h (by simp) (by simp) (by simp)
  refine primary_reads_enclosed hlist ?_ he
  obtain ⟨c, d, hc, hkind⟩ := hlist.exists rfl
  have hstarts := expressions_starts hc
  rw [hkind] at hstarts
  intro hselect
  rw [hselect] at hstarts
  cases hstarts

theorem primary_reads {e : Expr} (h : Rule.Primary r rules ks e) :
    Reads (primary r (readers r)) (·.apart = true) ks e := by
  cases h with
  | number => exact reads_kind_bind (reads_advance_bind (reads_pure _))
  | string => exact reads_kind_bind (reads_advance_bind (reads_pure _))
  | null => exact reads_kind_bind (reads_advance_bind (reads_pure _))
  | placeholder => exact reads_kind_bind (reads_advance_bind (reads_pure _))
  | «exists» h =>
    obtain ⟨h⟩ := h
    exact reads_kind_bind (reads_advance_bind (enclosedQuery_reads (hrules.query _ _ h)).map)
  | subquery h =>
    obtain @⟨ks, _, h⟩ := h
    have hread := hrules.query ks _ h
    obtain ⟨c, d, hc, hkind⟩ := hread.exists rfl
    exact primary_reads_query hread (hkind ▸ query_starts hc)
  | group h => exact enclosed_reads hrules h (.inl rfl)
  | list h hlength => exact enclosed_reads hrules h (.inr ⟨hlength, rfl⟩)
  | column h => exact column_reads h
  | call harity h haccepts =>
    obtain ⟨h⟩ := h
    refine call_reads harity haccepts ?_
    cases h with
    | none => exact arguments_reads_nil
    | some h =>
      refine arguments_reads (commaList_reads (M := (· ∈ [.symbol .comma, .symbol .rightParen]))
        (fun ks e h => ?_) h (by simp) (by simp) (by simp))
      cases h with
      | all => exact reads_accept_then (reads_pure _) rfl
      | expression h => exact argument_reads (hrules.expression _ _ h)

end

theorem enclosed_readable (r : Registry) : Readable r (.enclosed r) :=
  ⟨fun _ _ h => h, fun _ _ h => h⟩

theorem leaf_reads (leaf : Leaf r) :
    Reads (primary r (readers r)) (·.apart = true) leaf.kinds leaf.expr :=
  primary_reads (enclosed_readable r) leaf.rule

/-- An operand starts as operands do that have no word or sign before them. -/
theorem leaf_starts (leaf : Leaf r) (k : Kind) : (leaf.kinds.headD k).startsPrimary = true := by
  obtain ⟨ks, e, h⟩ := leaf
  dsimp only
  cases h with
  | subquery h | group h | list h =>
    cases h
    rfl
  | column h =>
    obtain ⟨n, rest, rfl, -⟩ := column_cons h
    rfl
  | number | string | null | placeholder | «exists» | call => rfl

/-! ## Loops over the operators of some levels -/

/-- Every level binds less than those behind it. -/
def Ascending (levels : List Level) : Prop := levels.Pairwise (·.left < ·.left)

/-- What may stand behind a sequence of operators of the levels. -/
def Closes (levels : List Level) (k : Kind) : Prop :=
  k.apart = true ∧ ∀ l ∈ levels, k.stops (l.left + 1) = true

/-- The loop has arrived at a tree. A run is one of an operator of the levels, and a comparison has
    been made only if it is one of the levels. -/
structure Fits (levels : List Level) (chain : Chain) (e : Expr) : Prop where
  expr : chain.expr = e
  run : ∀ o : Infix, chain.run = some o.text → o.level ∈ levels
  compared : chain.compared = true → .comparison ∈ levels

/-- The loop has arrived at what segments of a level have been put together to. -/
inductive Stands (l : Level) (tighter : List Level) : Chain → Sequence.Folded → Prop
  | operand {chain e} : Fits tighter chain e → Stands l tighter chain (.operand e)
  | operation {o : Infix} {es compared} : o.level = l →
      (compared = true → .comparison ∈ l :: tighter) →
      Stands l tighter ⟨.applied o.text es, some o.text, compared⟩ (.operation o.text es)

variable {l : Level} {levels tighter : List Level} {power : Nat} {chain : Chain}

theorem Closes.behind {k : Kind} (h : Closes (l :: tighter) k) :
    Closes tighter k ∧ k.stops (l.left + 1) = true :=
  ⟨⟨h.1, fun l' hl' => h.2 l' (List.mem_cons_of_mem _ hl')⟩, h.2 l (List.mem_cons_self ..)⟩

/-- A segment ends before every operator of the level at which it is split. -/
theorem closes_kind (h : Ascending (l :: tighter)) {o : Infix} (ho : o.level = l) :
    Closes (l :: tighter) o.kind := by
  have hstops : o.kind.stops (l.left + 1) = true := ho ▸ o.stops_kind
  refine ⟨apart_of_stops hstops, fun l' hl' => ?_⟩
  obtain rfl | hl' := List.mem_cons.mp hl'
  · exact hstops
  · have hless := (List.pairwise_cons.mp h).1 l' hl'
    exact stops_mono (by omega) hstops

theorem Stands.fits {folded : Sequence.Folded} (h : Stands l tighter chain folded) :
    Fits (l :: tighter) chain folded.tree := by
  cases h with
  | operand h =>
    exact ⟨h.expr, fun o ho => List.mem_cons_of_mem _ (h.run o ho),
      fun hc => List.mem_cons_of_mem _ (h.compared hc)⟩
  | operation ho hc =>
    refine ⟨rfl, fun o' ho' => ?_, hc⟩
    rw [← ho, Infix.level_eq (Option.some.inj ho')]
    exact List.mem_cons_self ..

/-- One more segment is one more operand of the loop. -/
theorem Stands.join {folded : Sequence.Folded} (h : Stands l tighter chain folded)
    (hl : l ∉ tighter) {o : Infix} (ho : o.level = l) (e : Expr) :
    Stands l tighter (chain.join o.text e) (folded.extend o.text e) := by
  cases h with
  | @operand _ first h =>
    have hrun : chain.run ≠ some o.text := fun hrun => hl (ho ▸ h.run o hrun)
    have hjoin : chain.join o.text e =
        ⟨.applied o.text [first, e], some o.text, chain.compared⟩ := by
      simp [Chain.join, hrun, ← h.expr, Expr.binary, Expr.applied]
    rw [hjoin]
    exact .operation ho fun hc => List.mem_cons_of_mem _ (h.compared hc)
  | @operation last es compared hlast hc =>
    by_cases hsame : last.text = o.text
    · have hjoin : Chain.join ⟨.applied last.text es, some last.text, compared⟩ o.text e =
          ⟨.applied o.text (es ++ [e]), some o.text, compared⟩ := by
        simp [Chain.join, hsame, Expr.applied]
      rw [hjoin, Sequence.Folded.extend, if_pos hsame, hsame]
      exact .operation ho hc
    · have hjoin : Chain.join ⟨.applied last.text es, some last.text, compared⟩ o.text e =
          ⟨.applied o.text [.applied last.text es, e], some o.text, compared⟩ := by
        simp [Chain.join, hsame, Expr.binary, Expr.applied]
      rw [hjoin, Sequence.Folded.extend, if_neg hsame]
      exact .operation ho hc

/-- The loop over operators of at least some power takes in tokens of these kinds and arrives at the
    value, or stops at a second comparison if there is none. -/
def Arrives {β : Type} (r : Registry) (R : Chain → β → Prop) (levels : List Level) (power : Nat)
    (chain : Chain) (ks : List Kind) : Option β → Prop
  | some b => ∃ next, R next b ∧ Goes (chainStep (readers r) power) (Closes levels) chain ks next
  | none => Chained (iterate (chainStep (readers r) power) chain) (Closes levels) ks

section

variable {β γ : Type} {R : Chain → β → Prop} {R' : Chain → γ → Prop} {x : Option β}
  {ks' : List Kind}

theorem Arrives.bind {g : β → Option γ} (h : Arrives r R tighter power chain ks x)
    (hnext : ∀ next b, R next b → Arrives r R' levels power next ks' (g b))
    (hM : ∀ k, Closes levels k → Closes tighter (ks'.headD k)) :
    Arrives r R' levels power chain (ks ++ ks') (x >>= g) := by
  cases x with
  | none => exact Chained.append h hM
  | some b =>
    obtain ⟨next, hR, hgoes⟩ := h
    have hrest := hnext next b hR
    change Arrives r R' levels power chain (ks ++ ks') (g b)
    cases hb : g b with
    | none =>
      rw [hb] at hrest
      exact hgoes.chained hrest hM
    | some c =>
      rw [hb] at hrest
      obtain ⟨last, hR', hgoes'⟩ := hrest
      exact ⟨last, hR', hgoes.trans hgoes' hM⟩

theorem Arrives.map {g : β → γ} (h : Arrives r R levels power chain ks x)
    (hR : ∀ next b, R next b → R' next (g b)) :
    Arrives r R' levels power chain ks (x >>= fun b => some (g b)) := by
  cases x with
  | none => exact h
  | some b =>
    obtain ⟨next, hnext, hgoes⟩ := h
    exact ⟨next, hR next b hnext, hgoes⟩

theorem arrives_refl {b : β} (h : R chain b) : Arrives r R levels power chain [] (some b) :=
  ⟨chain, h, goes_refl _⟩

end

/-! ## One operator -/

variable {o : Infix} {right : Sequence r} {x : Option Expr}

theorem link_arrives (ho : o.level = l) (hl : l ≠ .comparison) (hpower : power ≤ l.left)
    (h : Gives ((readers r).expression (l.left + 1)) (Closes levels) ks x) (chain : Chain) :
    Arrives r (fun next e => next = chain.join o.text e) levels power chain (o.kind :: ks) x := by
  subst ho
  have hof := Infix.of?_kind_chain hl
  cases x with
  | some e =>
    exact ⟨_, rfl, (chainStep_reads_chain hof rfl hpower h chain).goes (chainStep_progress _ _)⟩
  | none =>
    refine Chained.iterate (chained_kind_bind ?_) (chainStep_progress _ _)
    simp only [hof, if_neg (Nat.not_lt.mpr hpower)]
    exact chained_advance_bind (Chained.bind h)

/-- No quantifier starts a sequence, so the right side of a comparison is read as an expression. -/
theorem comparand_eq {right : Sequence r} {c d : Cursor} (hm : c.Moves right.kinds d) (power : Nat) :
    comparand (readers r) power c = (readers r).expression power c := by
  have hstarts : c.current.kind.startsPrimary = true := by
    obtain ⟨e, hm, -⟩ := Cursor.Moves.split hm
    rw [hm.current]
    exact leaf_starts right.first _
  rw [comparand, kind_bind]
  split
  all_goals first
    | rfl
    | (rename_i hk; rw [hk] at hstarts; cases hstarts)

theorem comparison_arrives (ho : o.level = .comparison) (hcompared : chain.compared = false)
    (hpower : power ≤ Level.comparison.left)
    (h : Gives ((readers r).expression (Level.comparison.left + 1)) (Closes levels) right.kinds x) :
    Arrives r (fun next e => next = ⟨.binary o.text chain.expr e, none, true⟩) levels power chain
      (o.kind :: right.kinds) x := by
  have hof := Infix.of?_kind_comparison ho
  rw [ho] at hof
  cases x with
  | some e =>
    have hright : Reads (comparand (readers r) (Level.comparison.left + 1)) (Closes levels)
        right.kinds e := by
      intro c d hm hd
      rw [comparand_eq hm]
      exact h hm hd
    exact ⟨_, rfl, (chainStep_reads_comparison hof rfl hpower hcompared hright).goes
      (chainStep_progress _ _)⟩
  | none =>
    have hright : Chained (comparand (readers r) (Level.comparison.left + 1)) (Closes levels)
        right.kinds := by
      intro c d hm hd
      rw [comparand_eq hm]
      exact h hm hd
    refine Chained.iterate (chained_kind_bind ?_) (chainStep_progress _ _)
    simp only [hof, if_neg (Nat.not_lt.mpr hpower), hcompared]
    exact chained_advance_bind hright.bind

/-- What has been compared is not compared again. -/
theorem comparison_chained (ho : o.level = .comparison) (hcompared : chain.compared = true)
    (hpower : power ≤ Level.comparison.left) :
    Chained (iterate (chainStep (readers r) power) chain) N (o.kind :: ks) := by
  have hof := Infix.of?_kind_comparison ho
  rw [ho] at hof
  refine Chained.iterate (chained_kind_bind ?_) (chainStep_progress _ _)
  simp only [hof, if_neg (Nat.not_lt.mpr hpower), hcompared]
  exact fun c d _ _ => ⟨_, _, rfl⟩

/-! ## Sequences -/

/-- The loop of an expression of at least the given power arrives at the tree of a sequence. -/
def Built (levels : List Level) (power : Nat) (s : Sequence r) : Prop :=
  Arrives r (Fits levels) levels power ⟨s.first.expr, none, false⟩ (Sequence.restKinds s.rest)
    (s.tree? levels)

theorem apart_restKinds {rest : List (Infix × Leaf r)} {k : Kind} (h : k.apart = true) :
    ((Sequence.restKinds rest).headD k).apart = true := by
  cases rest with
  | nil => exact h
  | cons link rest => exact apart_of_stops link.1.stops_kind

/-- Read by itself, a sequence gives its tree. -/
theorem Built.gives {s : Sequence r} (h : Built levels power s) :
    Gives ((readers r).expression power) (fun k => Closes levels k ∧ k.stops power = true) s.kinds
      (s.tree? levels) := by
  rw [expression_readers]
  have hfirst := operand_reads_primary (leaf_reads s.first)
  rw [Built] at h
  cases htree : s.tree? levels with
  | some e =>
    rw [htree] at h
    obtain ⟨chain, hfits, hgoes⟩ := h
    rw [← hfits.expr]
    exact expression_reads hfirst hgoes (fun k hk => apart_restKinds hk.1) fun k hk => hk
  | none =>
    rw [htree] at h
    have hloop : Chained (iterate (chainStep (readers r) power) ⟨s.first.expr, none, false⟩ >>=
        fun chain => pure chain.expr) (fun k => Closes levels k ∧ k.stops power = true)
        (Sequence.restKinds s.rest) :=
      Chained.bind fun c d hm hd => h hm hd.1
    have hall : Chained (expression r (readers r) power)
        (fun k => Closes levels k ∧ k.stops power = true) s.kinds := by
      rw [expression]
      exact hfirst.bind_chained hloop fun k hk => apart_restKinds hk.1.1
    exact hall

/-- The segments of a level behind their operators, as far as they have trees. -/
def Segments (l : Level) (tighter : List Level) (others : List (Infix × Sequence r)) : Prop :=
  ∀ o segment, (o, segment) ∈ others → o.level = l ∧ Built tighter (l.left + 1) segment

section

variable {others : List (Infix × Sequence r)}

/-- What is read behind the first operator. -/
theorem Segments.first {o : Infix} {segment : Sequence r}
    (h : Segments l tighter ((o, segment) :: others)) :
    o.level = l ∧ Gives ((readers r).expression (l.left + 1)) (Closes (l :: tighter)) segment.kinds
      (segment.tree? tighter) := by
  obtain ⟨ho, hsegment⟩ := h o segment (List.mem_cons_self ..)
  exact ⟨ho, hsegment.gives.weaken fun k hk => hk.behind⟩

theorem Segments.behind {other : Infix × Sequence r} (h : Segments l tighter (other :: others)) :
    Segments l tighter others :=
  fun o segment hmem => h o segment (List.mem_cons_of_mem _ hmem)

theorem Segments.closes (h : Segments l tighter others) (hascending : Ascending (l :: tighter))
    {k : Kind} (hk : Closes (l :: tighter) k) :
    Closes (l :: tighter) ((Sequence.othersKinds others).headD k) := by
  cases others with
  | nil => exact hk
  | cons other others => exact closes_kind hascending (h _ _ (List.mem_cons_self ..)).1

theorem not_mem_of_ascending (h : Ascending (l :: tighter)) : l ∉ tighter := fun hmem =>
  Nat.lt_irrefl _ ((List.pairwise_cons.mp h).1 l hmem)

/-- The loop goes through the segments of a level other than that of comparisons. -/
theorem fold_arrives (hascending : Ascending (l :: tighter)) (hl : l ≠ .comparison)
    (hpower : power ≤ l.left) (hothers : Segments l tighter others) {folded : Sequence.Folded}
    (h : Stands l tighter chain folded) :
    Arrives r (Stands l tighter) (l :: tighter) power chain (Sequence.othersKinds others)
      (Sequence.fold (Sequence.tree? tighter) others folded) := by
  induction others generalizing chain folded with
  | nil => exact arrives_refl h
  | cons other others ih =>
    obtain ⟨o, segment⟩ := other
    obtain ⟨ho, hsegment⟩ := hothers.first
    have hlink := link_arrives ho hl hpower hsegment chain
    refine hlink.bind (fun next e hnext => ?_) fun k hk => hothers.behind.closes hascending hk
    subst hnext
    exact ih hothers.behind (h.join (not_mem_of_ascending hascending) ho e)

/-- The loop goes through the segments of a level, if no comparison follows another one. -/
theorem segments_arrive (hascending : Ascending (l :: tighter)) (hpower : power ≤ l.left)
    (hothers : Segments l tighter others) (honce : ¬ (l = .comparison ∧ 2 ≤ others.length)) {e : Expr}
    (h : Fits tighter chain e) :
    Arrives r (Fits (l :: tighter)) (l :: tighter) power chain (Sequence.othersKinds others)
      (do return (← Sequence.fold (Sequence.tree? tighter) others (.operand e)).tree) := by
  by_cases hl : l = .comparison
  · subst hl
    match others with
    | [] => exact arrives_refl (Stands.operand h).fits
    | [(o, segment)] =>
      obtain ⟨ho, hsegment⟩ := hothers.first
      have hcompared : chain.compared = false := Bool.eq_false_iff.mpr fun hc =>
        not_mem_of_ascending hascending (h.compared hc)
      have hlink := comparison_arrives ho hcompared hpower hsegment
      have hmap : Arrives r (Fits (.comparison :: tighter)) (.comparison :: tighter) power chain _
          (segment.tree? tighter >>= fun right => some (.applied o.text [e, right])) :=
        hlink.map fun next right hnext => by
          subst hnext
          exact ⟨by rw [h.expr]; rfl, nofun, fun _ => List.mem_cons_self ..⟩
      have hfold : (do return (← Sequence.fold (Sequence.tree? tighter) [(o, segment)] (.operand e)).tree) =
          segment.tree? tighter >>= fun right => some (.applied o.text [e, right]) := by
        simp only [Sequence.fold]
        cases segment.tree? tighter <;> rfl
      have hkinds : Sequence.othersKinds [(o, segment)] = o.kind :: segment.kinds := by
        simp [Sequence.othersKinds]
      rw [hfold, hkinds]
      exact hmap
    | _ :: _ :: _ => exact absurd ⟨rfl, by simp⟩ honce
  · exact (fold_arrives hascending hl hpower hothers (.operand h)).map fun _ _ h => h.fits

/-- The loop does not get through two comparisons. -/
theorem segments_chained (hascending : Ascending (.comparison :: tighter))
    (hpower : power ≤ Level.comparison.left) (hothers : Segments .comparison tighter others)
    (htwice : 2 ≤ others.length) {e : Expr} (h : Fits tighter chain e) :
    Chained (iterate (chainStep (readers r) power) chain) (Closes (.comparison :: tighter))
      (Sequence.othersKinds others) := by
  match others with
  | [] | [_] => simp at htwice
  | (o, segment) :: (o', segment') :: others =>
    obtain ⟨ho, hsegment⟩ := hothers.first
    have ho' := hothers.behind.first.1
    have hcompared : chain.compared = false := Bool.eq_false_iff.mpr fun hc =>
      not_mem_of_ascending hascending (h.compared hc)
    have hlink := comparison_arrives ho hcompared hpower hsegment
    have hstop : Arrives r (Fits (.comparison :: tighter)) (.comparison :: tighter) power chain _
        (segment.tree? tighter >>= fun _ => none) :=
      hlink.bind (fun next right hnext => comparison_chained ho' (hnext ▸ rfl) hpower)
        fun k hk => hothers.behind.closes hascending hk
    rwa [Option.bind_eq_bind, Option.bind_fun_none] at hstop

end

/-- The operators of a level and of those that bind tighter. The induction is on the levels; a loop
    that has gone through the first segment goes on with the operators of the loosest level. -/
theorem built (hascending : Ascending levels) (hpower : ∀ l ∈ levels, power ≤ l.left)
    {s : Sequence r} (hs : Sequence.Within levels s.rest) : Built levels power s := by
  induction levels generalizing power s with
  | nil =>
    have hnone : s.rest = [] := List.eq_nil_iff_forall_not_mem.mpr fun link hmem =>
      absurd (hs _ _ hmem) List.not_mem_nil
    rw [Built, hnone]
    exact arrives_refl ⟨rfl, nofun, nofun⟩
  | cons l tighter ih =>
    obtain ⟨hless, hascending'⟩ := List.pairwise_cons.mp hascending
    obtain ⟨hfirst, hothers⟩ := Sequence.cut_within hs
    have hstart : Built tighter power (s.split l).1 :=
      ih hascending' (fun l' hl' => hpower l' (List.mem_cons_of_mem _ hl')) hfirst
    have hsegments : Segments l tighter (s.split l).2 := fun o segment hmem =>
      ⟨(hothers o segment hmem).1, ih hascending' hless (hothers o segment hmem).2⟩
    have hl := hpower l (List.mem_cons_self ..)
    have hcloses (k : Kind) (hk : Closes (l :: tighter) k) :=
      (hsegments.closes hascending hk).behind.1
    rw [Built, Sequence.tree?, ← Sequence.cut_kinds l s.rest]
    split
    · rename_i htwice
      obtain ⟨rfl, htwice⟩ := htwice
      have hchained : Arrives r (Fits (.comparison :: tighter)) (.comparison :: tighter) power
          ⟨s.first.expr, none, false⟩ _ ((s.split .comparison).1.tree? tighter >>= fun _ => none) :=
        hstart.bind (fun next e hfits => segments_chained hascending hl hsegments htwice hfits) hcloses
      rwa [Option.bind_eq_bind, Option.bind_fun_none] at hchained
    · rename_i honce
      exact hstart.bind (fun next e hfits => segments_arrive hascending hl hsegments honce hfits) hcloses

/-- A sequence gives its tree where a list or an expression ends. -/
theorem sequence_gives (s : Sequence r) :
    Gives ((readers r).expression 0)
      (· ∈ [.eof, .symbol .semicolon, .symbol .comma, .symbol .rightParen]) s.kinds
      (s.tree? Level.all) := by
  have hascending : Ascending Level.all := by
    unfold Ascending
    decide
  have hall : Sequence.Within Level.all s.rest := fun o _ _ => by
    cases o <;> decide
  have hbuilt : Built Level.all 0 s := built hascending (fun _ _ => Nat.zero_le _) hall
  refine hbuilt.gives.weaken ?_
  intro k hk
  simp only [List.mem_cons, List.not_mem_nil, or_false] at hk
  obtain rfl | rfl | rfl | rfl := hk <;>
    exact ⟨⟨by decide, by decide⟩, by decide⟩

/-- A sequence between parentheses is an operand again, so what is said of sequences holds however
    deep they stand in one another. -/
def Leaf.parens (s : Sequence r) (e : Expr) (h : s.tree? Level.all = some e) : Leaf r where
  kinds := .symbol .leftParen :: s.kinds ++ [.symbol .rightParen]
  expr := e
  rule := by
    have hread : Reads ((readers r).expression 0)
        (· ∈ [.eof, .symbol .semicolon, .symbol .comma, .symbol .rightParen]) s.kinds e := by
      have hgives := sequence_gives s
      rwa [h] at hgives
    exact .group (.mk (.one (hread.weaken fun k hk => by simp_all)))

/-- A sequence is read by itself, up to the end. -/
theorem condition_gives (s : Sequence r) :
    Gives (condition r) (· = .eof) s.kinds (s.tree? Level.all) := by
  have hgives := (sequence_gives s).weaken (N := (· = .eof)) (by simp_all)
  cases htree : s.tree? Level.all with
  | some e =>
    rw [htree] at hgives
    exact condition_reads hgives
  | none =>
    rw [htree] at hgives
    have hchained : Chained ((readers r).expression 0) (· = .eof) s.kinds := hgives
    intro c d hm hd
    have hwhere : c.current.kind ≠ .keyword .where := by
      obtain ⟨e, hm, -⟩ := Cursor.Moves.split hm
      have hstarts := leaf_starts s.first e.current.kind
      rw [← hm.current] at hstarts
      intro hk
      rw [hk] at hstarts
      cases hstarts
    have hskip : discard (acceptKeyword .where) c = (.ok (), c) :=
      discard_ok.mpr ⟨false, acceptKeyword_ok.mpr (.inr ⟨rfl, hwhere, rfl⟩)⟩
    rw [condition, bind_apply, hskip]
    exact hchained.bind hm hd

end Grammar

/-- Operands with infix operators between them are read as the tree that the levels give. If some
    operand of a comparison is compared again, and only then, there is no tree, and reading stops
    there. -/
theorem read_by_levels {r : Registry} (s : Sequence r) {c : Cursor} (hc : c.kinds = s.kinds) :
    (∀ e, s.tree? Level.all = some e → (Grammar.condition r c).1 = .ok e) ∧
      (s.tree? Level.all = none →
        ∃ place, (Grammar.condition r c).1 = .error (.malformed .chainedComparison place)) := by
  obtain ⟨d, hm, hd⟩ := Cursor.exists_moves (hc.trans (List.append_nil _).symm)
  have hend : d.current.kind = .eof := by rw [Cursor.current_kind, hd, List.headD_nil]
  have hgives := Grammar.condition_gives s
  constructor
  · intro e he
    rw [he] at hgives
    exact congrArg Prod.fst (hgives hm hend)
  · intro hnone
    rw [hnone] at hgives
    obtain ⟨place, e, hfail⟩ := hgives hm hend
    exact ⟨place, congrArg Prod.fst hfail⟩

theorem read_by_levels_mixed :
    (Grammar.condition Registry.builtin (Cursor.ofText "a + b + c * d = e or f and g")).1 =
        .ok (.applied "OR" [.applied "=" [.applied "+" [.column "a", .column "b",
          .applied "*" [.column "c", .column "d"]], .column "e"],
          .applied "AND" [.column "f", .column "g"]]) ∧
      ∃ place, (Grammar.condition Registry.builtin (Cursor.ofText "a and b = c + d = e")).1 =
        .error (.malformed .chainedComparison place) := by
  let leaf (n : String) : Leaf Registry.builtin := ⟨[.name n], .column n, .column (.dotted .one)⟩
  let mixed : Sequence Registry.builtin := ⟨leaf "a", [(.plus, leaf "b"), (.plus, leaf "c"),
    (.times, leaf "d"), (.equal, leaf "e"), (.or, leaf "f"), (.and, leaf "g")]⟩
  let chained : Sequence Registry.builtin := ⟨leaf "a", [(.and, leaf "b"), (.equal, leaf "c"),
    (.plus, leaf "d"), (.equal, leaf "e")]⟩
  have hmixed : (Cursor.ofText "a + b + c * d = e or f and g").kinds = mixed.kinds := by
    decide +kernel
  have hchained : (Cursor.ofText "a and b = c + d = e").kinds = chained.kinds := by decide +kernel
  exact ⟨(read_by_levels mixed hmixed).1 _ rfl, (read_by_levels chained hchained).2 rfl⟩

end SqlFront
