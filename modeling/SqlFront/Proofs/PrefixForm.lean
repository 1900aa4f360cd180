import SqlFront.Proofs.OtherFunctions
import SqlFront.Proofs.RoundTrip
import SqlFront.Proofs.WellFormed

/-! # The prefix form

The form with every operator before its operands is written and never read. Its tokens are a row of
leaves and of operations between parentheses, and which row it is can be told from the tokens alone:
no operator goes on like another one with an operand behind it, and a leaf ends where it can. Main
statement: two expressions that parsers return have the same prefix form only if they are the same.
-/

namespace SqlFront

/-! ## Heads of operations -/

namespace Operator

/-- The operators that are signs. -/
def signs : List Symbol :=
  [.equal, .notEqual, .lessGreater, .hash, .less, .lessEqual, .greater, .greaterEqual, .plus, .minus,
    .concat, .star, .slash, .power, .comma]

/-- The words of the other operators. -/
def phrases : List (List String) :=
  [["AND"], ["OR"], ["NOT"], ["BETWEEN"], ["NOT", "BETWEEN"], ["LIKE"], ["NOT", "LIKE"], ["IN"],
    ["NOT", "IN"], ["IS", "NULL"], ["IS", "NOT", "NULL"], ["EXISTS"], ["ANY"], ["ALL"], ["SOME"]]

/-- The operators with their tokens. -/
def heads : List (String × List Token.Kind) :=
  signs.map (fun sign => (sign.text, [.symbol sign])) ++
    phrases.map fun words => (Text.join " " words, words.map Lexeme.wordKind)

theorem mem_heads_of_applied : ∀ o ∈ applied, o ∈ heads.map Prod.fst := by decide

theorem count_pos : ∀ o ∈ applied, 0 < (operandCount o).1 := by decide

end Operator

namespace Token.Kind

/-- The expression that the token stands for by itself. -/
def leaf? : Kind → Option Expr
  | .symbol .star => some Expr.star
  | .symbol .question => some .placeholder
  | .keyword .null => some .null
  | .number text => some (.number text)
  | .string value => some (.string value)
  | _ => none

/-- Whether a prefix form may begin with the token. -/
def opensForm : Kind → Bool
  | .number _ | .string _ | .name _ => true
  | .keyword .null | .symbol .question | .symbol .star | .symbol .leftParen => true
  | _ => false

/-- Whether the token may stand behind an operator or an operand. -/
def goesOn (k : Kind) : Bool := k.opensForm || k == .symbol .rightParen

/-- Whether an operator may begin with the token. -/
def opensHead : Kind → Bool
  | .name _ | .keyword .select => false
  | _ => true

theorem opensForm_of_leaf {k : Kind} {e : Expr} (h : k.leaf? = some e) : k.opensForm = true := by
  unfold leaf? at h
  split at h <;> first | rfl | cases h

end Token.Kind

/-- A head that another one begins with is the other one, or is followed there by a token with which no
    operand begins. -/
theorem Operator.heads_separate : ∀ p ∈ heads, ∀ p' ∈ heads, p.2 <+: p'.2 →
    p = p' ∨ (p'.2.drop p.2.length).head?.any (!·.goesOn) = true := by decide +kernel

/-- No operator begins with a name or with the first word of a query. -/
theorem Operator.heads_first : ∀ p ∈ heads, p.2.head?.any Token.Kind.opensHead = true := by
  decide +kernel

namespace Grammar

open Reading Token Kind

/-- What stands first in an operation: an operator, or the name of a function that is called. -/
inductive Head : List Kind → String → Bool → Prop
  | operator {o ks} : (o, ks) ∈ Operator.heads → Head ks o false
  | call {n} : Head [.name n] n true

/-- A leaf of the prefix form. -/
inductive PrefixLeaf (r : Registry) : Rule Expr
  | token {k e} : k.leaf? = some e → PrefixLeaf r [k] e
  | column {ks t} : Rule.Column ks t → PrefixLeaf r ks (.column t)
  | query {ks q} : Reads (readers r).query (· = .symbol .rightParen) ks q →
      PrefixLeaf r (.symbol .leftParen :: (ks ++ [.symbol .rightParen])) (.query q)

/-- Prefix forms one after the other. -/
inductive Prefixed (r : Registry) : List Kind → List Expr → Prop
  | nil : Prefixed r [] []
  | leaf {ks e ks' es} : PrefixLeaf r ks e → Prefixed r ks' es → Prefixed r (ks ++ ks') (e :: es)
  | operation {head o call ks operands ks' es} : Head head o call → Prefixed r ks operands →
      Prefixed r ks' es →
      Prefixed r (.symbol .leftParen :: (head ++ (ks ++ .symbol .rightParen :: ks')))
        (.operation ⟨o, operands, call⟩ :: es)

/-- Nothing stands there, or a closing parenthesis. -/
def Closed (rest : List Kind) : Prop := rest.headD (.symbol .rightParen) = .symbol .rightParen

theorem closed_paren (rest : List Kind) : Closed (.symbol .rightParen :: rest) := rfl

/-! ## A row is one row only -/

variable {r : Registry} {ks ks' rest rest' X X' : List Kind} {e e' : Expr} {es es' : List Expr}

theorem Head.first {head : List Kind} {o : String} {call : Bool} (h : Head head o call) :
    ∃ k rest, head = k :: rest ∧ k ≠ .keyword .select := by
  cases h with
  | operator ho =>
    have hfirst := Operator.heads_first _ ho
    cases head with
    | nil => cases hfirst
    | cons k rest =>
      refine ⟨k, rest, rfl, ?_⟩
      rintro rfl
      cases hfirst
  | call => exact ⟨_, [], rfl, nofun⟩

/-- Of two operators the longer one would go on with a token that stands behind no operator. -/
theorem operators_unique {p p' : String × List Kind} (hp : p ∈ Operator.heads)
    (hp' : p' ∈ Operator.heads) (hlonger : p'.2 = p.2 ++ rest)
    (hrest : ∀ k ∈ rest.head?, k.goesOn = true) : p = p' := by
  obtain heq | hno := Operator.heads_separate p hp p' hp' ⟨rest, hlonger.symm⟩
  · exact heq
  · rw [hlonger, List.drop_left] at hno
    cases rest with
    | nil => cases hno
    | cons k rest => simp [hrest k rfl] at hno

theorem operator_not_name {p : String × List Kind} (hp : p ∈ Operator.heads) {n : String}
    (heq : .name n :: X = p.2 ++ X') : False := by
  have hfirst := Operator.heads_first p hp
  cases hkinds : p.2 with
  | nil => simp [hkinds] at hfirst
  | cons k rest =>
    rw [hkinds] at hfirst heq
    obtain ⟨rfl, -⟩ := List.cons.inj heq
    cases hfirst

theorem Head.unique {head head' : List Kind} {o o' : String} {call call' : Bool} (h : Head head o call)
    (h' : Head head' o' call') (heq : head ++ X = head' ++ X') (hX : ∀ k ∈ X.head?, k.goesOn = true)
    (hX' : ∀ k ∈ X'.head?, k.goesOn = true) : o = o' ∧ call = call' ∧ X = X' := by
  cases h with
  | operator ho =>
    cases h' with
    | operator ho' =>
      have hsame : (o, head) = (o', head') := by
        obtain ⟨a, ha, hX₁⟩ | ⟨a, ha, hX₁⟩ := List.append_eq_append_iff.mp heq
        · refine operators_unique ho ho' ha fun k hk => hX k ?_
          simp [hX₁, Option.mem_def.mp hk]
        · refine (operators_unique ho' ho ha fun k hk => hX' k ?_).symm
          simp [hX₁, Option.mem_def.mp hk]
      cases hsame
      exact ⟨rfl, rfl, List.append_cancel_left heq⟩
    | call => exact (operator_not_name ho heq.symm).elim
  | call =>
    cases h' with
    | operator ho' => exact (operator_not_name ho' heq).elim
    | call =>
      cases heq
      exact ⟨rfl, rfl, rfl⟩

theorem PrefixLeaf.first (h : PrefixLeaf r ks e) : ∃ k rest, ks = k :: rest ∧ k.opensForm = true := by
  cases h with
  | token h => exact ⟨_, [], rfl, opensForm_of_leaf h⟩
  | column h =>
    obtain ⟨n, rest, rfl, -⟩ := column_cons h
    exact ⟨_, rest, rfl, rfl⟩
  | query => exact ⟨_, _, rfl, rfl⟩

theorem select_first {q : Query Expr}
    (h : Reads (readers r).query (· = .symbol .rightParen) ks q) :
    ks.headD (.symbol .rightParen) = .keyword .select := by
  obtain ⟨c, d, hc, hkind⟩ := h.exists rfl
  exact hkind ▸ query_starts hc

/-- What begins with a parenthesis and no operator is a query. -/
theorem PrefixLeaf.not_operation {head : List Kind} {o : String} {call : Bool}
    (h : PrefixLeaf r ks e) (hhead : Head head o call)
    (heq : ks ++ X = .symbol .leftParen :: (head ++ X')) : False := by
  cases h with
  | token h =>
    obtain ⟨rfl, -⟩ := List.cons.inj heq
    cases h
  | column h =>
    obtain ⟨n, rest, rfl, -⟩ := column_cons h
    cases heq
  | @query inner q h =>
    obtain ⟨k, rest, rfl, hk⟩ := hhead.first
    have hselect := select_first h
    obtain ⟨-, heq⟩ := List.cons.inj heq
    cases inner with
    | nil => cases hselect
    | cons k' inner =>
      obtain ⟨rfl, -⟩ := List.cons.inj heq
      exact hk hselect

theorem PrefixLeaf.unique (h : PrefixLeaf r ks e) (h' : PrefixLeaf r ks' e') (heq : ks ++ X = ks' ++ X')
    (hX : X.headD .eof ≠ .symbol .dot) (hX' : X'.headD .eof ≠ .symbol .dot) : e = e' ∧ X = X' := by
  cases h with
  | token h =>
    cases h' with
    | token h' =>
      obtain ⟨rfl, rfl⟩ := List.cons.inj heq
      exact ⟨Option.some.inj (h.symm.trans h'), rfl⟩
    | column h' =>
      obtain ⟨n, rest, rfl, -⟩ := column_cons h'
      obtain ⟨rfl, -⟩ := List.cons.inj heq
      cases h
    | query =>
      obtain ⟨rfl, -⟩ := List.cons.inj heq
      cases h
  | column h =>
    obtain ⟨n, rest, rfl, -⟩ := column_cons h
    cases h' with
    | token h' =>
      obtain ⟨rfl, -⟩ := List.cons.inj heq
      cases h'
    | column h' =>
      obtain ⟨n', rest', rfl, -⟩ := column_cons h'
      obtain ⟨hn, hrest⟩ := List.cons.inj heq
      cases hn
      obtain ⟨he, hX⟩ := reads_unique (columnRest_reads h rfl) (columnRest_reads h' rfl) hrest hX hX'
      exact ⟨he, hX⟩
    | query => cases heq
  | query h =>
    cases h' with
    | token h' =>
      obtain ⟨rfl, -⟩ := List.cons.inj heq
      cases h'
    | column h' =>
      obtain ⟨n, rest, rfl, -⟩ := column_cons h'
      cases heq
    | query h' =>
      simp only [List.cons_append, List.append_assoc, List.nil_append, List.cons.injEq, true_and] at heq
      obtain ⟨rfl, heq⟩ := reads_unique h h' heq rfl rfl
      exact ⟨rfl, (List.cons.inj heq).2⟩

/-- Behind a row there is nothing or a closing parenthesis, so what stands first in it is an operand or
    that parenthesis. -/
theorem Prefixed.goesOn (h : Prefixed r ks es) (hrest : Closed rest) :
    ∀ k ∈ (ks ++ rest).head?, k.goesOn = true := by
  cases h with
  | nil =>
    cases rest with
    | nil => exact nofun
    | cons k rest =>
      obtain rfl : k = .symbol .rightParen := hrest
      rintro _ ⟨⟩
      rfl
  | leaf h _ =>
    obtain ⟨k, ks, rfl, hk⟩ := h.first
    rintro _ ⟨⟩
    rw [Kind.goesOn, hk]
    rfl
  | operation =>
    rintro _ ⟨⟩
    rfl

/-- A row with nothing in it but what stands behind a row. -/
theorem Prefixed.eq_nil (h : Prefixed r ks es) (hclosed : Closed (ks ++ rest)) : ks = [] ∧ es = [] := by
  cases h with
  | nil => exact ⟨rfl, rfl⟩
  | leaf h _ =>
    obtain ⟨k, ks, rfl, hk⟩ := h.first
    obtain rfl : k = .symbol .rightParen := hclosed
    cases hk
  | operation => cases hclosed

theorem not_dot {ks : List Kind} (h : ∀ k ∈ ks.head?, k.goesOn = true) :
    ks.headD .eof ≠ .symbol .dot := by
  cases ks with
  | nil => nofun
  | cons k ks =>
    rintro rfl
    cases h (.symbol .dot) rfl

/-- A row of prefix forms can be told from its tokens, and so can its end. -/
theorem Prefixed.unique (h : Prefixed r ks es) (h' : Prefixed r ks' es') (hrest : Closed rest)
    (hrest' : Closed rest') (heq : ks ++ rest = ks' ++ rest') : es = es' ∧ rest = rest' := by
  induction h generalizing ks' es' rest rest' with
  | nil =>
    rw [List.nil_append] at heq
    obtain ⟨rfl, rfl⟩ := h'.eq_nil (heq ▸ hrest)
    exact ⟨rfl, heq⟩
  | @leaf ks e row es hleaf hrow ih =>
    rw [List.append_assoc] at heq
    cases h' with
    | nil =>
      obtain ⟨k, ks, rfl, hk⟩ := hleaf.first
      rw [List.nil_append] at heq
      obtain rfl : k = .symbol .rightParen := by rwa [← heq] at hrest'
      cases hk
    | @leaf ks' e' row' es' hleaf' hrow' =>
      rw [List.append_assoc] at heq
      obtain ⟨rfl, heq⟩ := hleaf.unique hleaf' heq (not_dot (hrow.goesOn hrest))
        (not_dot (hrow'.goesOn hrest'))
      obtain ⟨rfl, hend⟩ := ih hrow' hrest hrest' heq
      exact ⟨rfl, hend⟩
    | operation hhead' =>
      rw [List.cons_append, List.append_assoc] at heq
      exact (hleaf.not_operation hhead' heq).elim
  | @operation head o call ks operands row es hhead hoperands hrow ihoperands ih =>
    rw [List.cons_append, List.append_assoc, List.append_assoc, List.cons_append] at heq
    cases h' with
    | nil =>
      rw [List.nil_append] at heq
      rw [← heq] at hrest'
      cases hrest'
    | leaf hleaf' hrow' =>
      rw [List.append_assoc] at heq
      exact (hleaf'.not_operation hhead heq.symm).elim
    | @operation head' o' call' ks' operands' row' es' hhead' hoperands' hrow' =>
      rw [List.cons_append, List.append_assoc, List.append_assoc, List.cons_append] at heq
      obtain ⟨-, heq⟩ := List.cons.inj heq
      obtain ⟨rfl, rfl, heq⟩ := hhead.unique hhead' heq (hoperands.goesOn (closed_paren _))
        (hoperands'.goesOn (closed_paren _))
      obtain ⟨rfl, heq⟩ := ihoperands hoperands' (closed_paren _) (closed_paren _) heq
      obtain ⟨rfl, hend⟩ := ih hrow' hrest hrest' (List.cons.inj heq).2
      exact ⟨rfl, hend⟩

/-! ## The tokens of the form -/

theorem lexes_of_space {cs : List Char} {ks : List Kind} (h : Lexes (' ' :: cs) ks) : Lexes cs ks := by
  have hskip : (Layout.skip .blank (' ' :: cs)).2 = (Layout.skip .blank cs).2 := rfl
  cases h with
  | done h => exact .done (hskip.symm.trans h)
  | token h h' => exact .token (hskip.symm.trans h) h'

/-- An operator in front of a space gives its tokens. -/
theorem operator_spelled {p : String × List Kind} (hp : p ∈ Operator.heads) :
    SpellsBefore (·.head? = some ' ') p.1 p.2 := by
  have hbefore {s : String} {ks : List Kind} (h : SpellsAlways (s ++ " ") ks) :
      SpellsBefore (·.head? = some ' ') s ks := by
    intro rest ks' hrest hlex
    cases rest with
    | nil => cases hrest
    | cons c rest =>
      cases hrest
      simpa using h rest ks' trivial (lexes_of_space hlex)
  obtain hp | hp := List.mem_append.mp hp
  · obtain ⟨sign, -, rfl⟩ := List.mem_map.mp hp
    exact hbefore (spells_sign sign)
  · obtain ⟨words, hwords, rfl⟩ := List.mem_map.mp hp
    have hall : ∀ words ∈ Operator.phrases, words.all Text.isWordText = true := by decide
    exact hbefore (spells_words words ⟨hall words hwords, rfl, rfl⟩).space_after

/-- What an operation begins with gives its tokens where its operands, or their end, follow. -/
theorem head_spelled {op : Operation Expr} (h : op.Form r) :
    ∃ head, Head head op.operator op.call ∧
      SpellsBefore (fun cs => Boundary cs ∧ (op.operands ≠ [] → cs.head? = some ' ')) op.operator
        head := by
  have hsubset : ∀ o, o ∈ Operator.bracketed ∨ o ∈ Operator.quantifiers → o ∈ Operator.applied := by
    have hboth : ∀ o ∈ Operator.bracketed ++ Operator.quantifiers, o ∈ Operator.applied := by decide
    exact fun o ho => hboth o (List.mem_append.mpr ho)
  obtain ⟨hcall, name, hname, -, ho⟩ | ho := h.operator_cases
  · rw [hcall, ho]
    exact ⟨_, .call, (spells_name hname.upper).weaken fun cs hcs => hcs.1.nameEnd⟩
  · have happlied := hsubset _ ho
    have hcall : op.call = false := by
      rw [← Bool.not_eq_true]
      exact fun hcall => h.wellFormed.call.mp hcall happlied
    have hne : op.operands ≠ [] := by
      rw [← List.length_pos_iff]
      exact Nat.lt_of_lt_of_le (Operator.count_pos _ happlied) (h.wellFormed.count happlied).1
    obtain ⟨⟨o, head⟩, hhead, ho⟩ := List.mem_map.mp (Operator.mem_heads_of_applied _ happlied)
    obtain rfl : o = op.operator := ho
    rw [hcall]
    exact ⟨head, .operator hhead, (operator_spelled hhead).weaken fun cs hcs => hcs.2 hne⟩

theorem leaf_of_constant {c : Constant} (h : c.Form) :
    ∃ ks, Spells ((Expr.constant c).polish r) ks ∧ PrefixLeaf r ks (.constant c) := by
  rw [Expr.polish, Expr.render]
  cases h with
  | star => exact ⟨_, spells_star, .token rfl⟩
  | column h =>
    obtain ⟨ks, hks, h⟩ := h
    exact ⟨ks, spells_column h hks, .column h⟩
  | null =>
    have hnull : Spells "NULL" [.keyword .null] := spells_words ["NULL"] (by decide)
    exact ⟨_, hnull, .token rfl⟩
  | number h => exact ⟨_, spells_number h, .token rfl⟩
  | @string value => exact ⟨_, (spells_string value).weaken boundary_no_quote, .token rfl⟩

/-- The expression has a prefix form, which stands before others in a row. -/
def HasForm (r : Registry) (e : Expr) : Prop :=
  ∃ ks, Spells (e.polish r) ks ∧ ∀ ks' es, Prefixed r ks' es → Prefixed r (ks ++ ks') (e :: es)

theorem PrefixLeaf.hasForm (hs : Spells (e.polish r) ks) (h : PrefixLeaf r ks e) : HasForm r e :=
  ⟨ks, hs, fun _ _ hrow => .leaf h hrow⟩

theorem polishList_spelled (h : ∀ e ∈ es, HasForm r e) :
    ∃ ks, Spells (Expr.polishList r es) ks ∧ Prefixed r ks es := by
  induction es with
  | nil => exact ⟨[], spells_nil, .nil⟩
  | cons e es ih =>
    obtain ⟨ks, hs, hform⟩ := h e (List.mem_cons_self ..)
    obtain ⟨ks', hs', hrow⟩ := ih fun e he => h e (List.mem_cons_of_mem _ he)
    refine ⟨ks ++ ks', ?_, hform ks' es hrow⟩
    rw [Expr.polishList]
    refine Spells.append hs.space_before hs' ?_
    cases es with
    | nil => exact separate_nil
    | cons e' es =>
      rw [Expr.polishList, String.append_assoc]
      exact separate_append _ (by decide)

/-- Behind an operator stand a space and its operands, or its end. -/
theorem behind_head (es : List Expr) (rest : List Char) :
    Boundary ((Expr.polishList r es ++ ")").toList ++ rest) ∧
      (es ≠ [] → ((Expr.polishList r es ++ ")").toList ++ rest).head? = some ' ') := by
  cases es with
  | nil =>
    rw [Expr.polishList]
    exact ⟨boundary_of_starts (by decide) rest, absurd rfl⟩
  | cons e es =>
    rw [Expr.polishList, String.append_assoc, String.append_assoc]
    refine ⟨?_, fun _ => ?_⟩
    · rw [String.toList_append, List.append_assoc]
      exact boundary_of_starts (s := " ") (by decide) _
    · rw [String.toList_append, List.append_assoc]
      rfl

theorem operation_hasForm {op : Operation Expr} (h : op.Form r)
    (hoperands : ∀ e ∈ op.operands, HasForm r e) : HasForm r (.operation op) := by
  obtain ⟨head, hhead, hs⟩ := head_spelled h
  obtain ⟨ks, hs', hrow⟩ := polishList_spelled hoperands
  refine ⟨.symbol .leftParen :: (head ++ (ks ++ [.symbol .rightParen])), ?_, fun ks' es hrest => ?_⟩
  · have hclose := hs'.append_starts spells_rightParen (by decide)
    have hinside := SpellsBefore.append hs hclose fun rest _ => behind_head _ rest
    rw [Expr.polish, String.append_assoc, String.append_assoc]
    exact SpellsAlways.append spells_leftParen (hinside.weaken fun _ _ => trivial)
  · simpa using Prefixed.operation hhead hrow hrest

/-- Every expression that has been read has a prefix form. -/
theorem hasForm_of_formed (hr : r.SparesOperators) (h : e.Formed r) : HasForm r e := by
  induction e using Expr.operandInduction with
  | constant c =>
    cases h with
    | constant hc =>
      obtain ⟨ks, hs, hleaf⟩ := leaf_of_constant hc
      exact hleaf.hasForm hs
  | operation op ih =>
    cases h with
    | operation hop hoperands => exact operation_hasForm hop fun e he => ih e he (hoperands e he)
  | query q =>
    obtain ⟨ks, hs, hread, -⟩ := (queryRestored_of_formed hr h).tokens
    refine PrefixLeaf.hasForm ?_ (.query hread)
    rw [Expr.polish, Expr.render_query]
    exact hs.parens.weaken fun _ _ => trivial
  | placeholder =>
    refine PrefixLeaf.hasForm ?_ (.token (k := .symbol .question) rfl)
    rw [Expr.polish, Expr.render]
    exact spells_question.weaken fun _ _ => trivial

theorem polish_injective (hr : r.SparesOperators) (h : e.Formed r) (h' : e'.Formed r)
    (heq : e.polish r = e'.polish r) : e = e' := by
  obtain ⟨ks, hs, hrow⟩ := hasForm_of_formed hr h
  obtain ⟨ks', hs', hrow'⟩ := hasForm_of_formed hr h'
  obtain rfl : ks = ks' := hs.lexes.unique (heq ▸ hs'.lexes)
  have hempty : Closed [] := rfl
  obtain ⟨hes, -⟩ := (hrow [] [] .nil).unique (hrow' [] [] .nil) hempty hempty rfl
  exact (List.cons.inj hes).1

/-! ## What a parser returns -/

/-- The expression stands somewhere in what a parser returns: in an expression that is read by itself, or
    in a statement. -/
inductive Returned (r : Registry) (e : Expr) : Prop
  | condition {text c x d} : (Cursor.ofText text).Reaches c → condition r c = (.ok x, d) →
      x.Holds e → Returned r e
  | statement {text c s x d} : (Cursor.ofText text).Reaches c → statement? r c = (.ok (some s), d) →
      x ∈ s.parts → x.Holds e → Returned r e

theorem Returned.formed (h : Returned r e) : e.Formed r := by
  cases h with
  | condition hc hread hholds => exact (condition_free hc hread).1.holds hholds
  | statement hc hread hx hholds => exact ((statement?_formed hc hread).parts_free _ hx).1.holds hholds

end Grammar

/-- Two expressions that parsers return have the same prefix form only if they are the same. -/
theorem prefix_form_unambiguous (r : Registry) (hr : r.SparesOperators) (e e' : Expr)
    (he : Grammar.Returned r e) (he' : Grammar.Returned r e') (h : e.polish r = e'.polish r) : e = e' :=
  Grammar.polish_injective hr he.formed he'.formed h

/-- Two ways to write one expression. -/
theorem prefix_form_unambiguous_not_in :
    ∃ e e', (Grammar.condition Registry.builtin
        (Cursor.ofText "not a not in (1, -2, count(*)) and b is not null")).1 = .ok e ∧
      (Grammar.condition Registry.builtin
        (Cursor.ofText "((NOT (a NOT IN (1, (- 2), Count(*))))) AND (b IS NOT NULL);")).1 = .ok e' ∧
      e.polish Registry.builtin = "(AND (NOT (NOT IN a 1 (- 2) (COUNT *))) (IS NOT NULL b))" ∧
      e = e' := by
  have hread (text : String) (h : (Grammar.condition Registry.builtin
        (Cursor.ofText text)).1.toOption.map (Expr.polish Registry.builtin) =
          some "(AND (NOT (NOT IN a 1 (- 2) (COUNT *))) (IS NOT NULL b))") :
      ∃ e, (Grammar.condition Registry.builtin (Cursor.ofText text)).1 = .ok e ∧
        Grammar.Returned Registry.builtin e ∧
        e.polish Registry.builtin = "(AND (NOT (NOT IN a 1 (- 2) (COUNT *))) (IS NOT NULL b))" := by
    obtain ⟨e, he, htext⟩ := Option.map_eq_some_iff.mp h
    exact ⟨e, ok_of_toOption he, .condition (.refl _) (Prod.ext (ok_of_toOption he) rfl) .self, htext⟩
  obtain ⟨e, he, hreturned, htext⟩ := hread "not a not in (1, -2, count(*)) and b is not null"
    (by decide +kernel)
  obtain ⟨e', he', hreturned', htext'⟩ := hread
    "((NOT (a NOT IN (1, (- 2), Count(*))))) AND (b IS NOT NULL);" (by decide +kernel)
  have hsame := prefix_form_unambiguous _ Registry.builtin_sparesOperators e e' hreturned hreturned'
    (htext.trans htext'.symm)
  exact ⟨e, e', he, he', htext, hsame⟩

end SqlFront
