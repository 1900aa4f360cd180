import SqlFront.Proofs.Segments
import SqlFront.Proofs.WellFormed

/-! # Select items and the functions they call

The function of a select item and the segments of its name are recovered from the text of its
expression. Main statement: if no function is named like an operator or with a quote in its name, the
function is that of the call that the expression is, and besides columns only a call over a single
column has segments, those of the column.
-/

namespace SqlFront

theorem Text.takeWhile_append_cons {c : Char} (front back : List Char) :
    (front ++ c :: back).takeWhile (· != c) = front.takeWhile (· != c) := by
  induction front with
  | nil => simp
  | cons d front ih => simp only [List.cons_append, List.takeWhile_cons, ih]

namespace QualifiedName

open Text

/-! ## The segments of calls -/

theorem segment_open (front cs : List Char) : segment (front ++ '(' :: cs) = segment cs := by
  have hreverse : (front ++ '(' :: cs).reverse = cs.reverse ++ '(' :: front.reverse := by simp
  rw [segment, segment, argument, argument, hreverse, takeWhile_append_cons]

theorem segment_close (cs : List Char) : segment (cs ++ [')']) = segment cs := by
  have hreverse : (cs ++ [')']).reverse = ')' :: cs.reverse := by simp
  have hopen : (')' :: cs.reverse).takeWhile (· != '(') = ')' :: cs.reverse.takeWhile (· != '(') := by
    simp
  rw [segment, segment, argument, argument, hreverse, hopen, List.reverse_cons, takeWhile_append_cons]

theorem joinDots_open (front first : List Char) (rest : List (List Char)) :
    joinDots ((front ++ '(' :: first) :: rest) = front ++ '(' :: joinDots (first :: rest) := by
  cases rest <;> simp [joinDots]

theorem joinDots_close (texts : List (List Char)) (last back : List Char) :
    joinDots (texts ++ [last ++ back]) = joinDots (texts ++ [last]) ++ back := by
  cases texts with
  | nil => rfl
  | cons first rest =>
    rw [joinDots_append (List.cons_ne_nil _ _) (List.cons_ne_nil _ _),
      joinDots_append (List.cons_ne_nil _ _) (List.cons_ne_nil _ _)]
    simp [joinDots]

/-- Texts without dots that have been joined are cut into these texts. -/
theorem pieces_join {texts : List (List Char)} (hne : texts ≠ []) (hdot : ∀ cs ∈ texts, '.' ∉ cs) :
    pieces '.' (joinDots texts) = texts := by
  have hpieces : texts.flatMap (pieces '.') = texts.flatMap fun cs => [cs] := by
    rw [List.flatMap_def, List.flatMap_def,
      List.map_congr_left fun cs hcs => pieces_of_not_mem (hdot cs hcs)]
  rw [pieces_joinDots hne, hpieces, List.flatMap_singleton']

/-- The parts of a call are those of its argument, the first and the last one with what stands around
    the argument. -/
theorem parts_call {name t : String} (hname : '.' ∉ name.toList) (hne : t ≠ "")
    (hfirst : '.' ∉ t.toList.head?) (hlast : '.' ∉ t.toList.getLast?) :
    (∃ only, parts t = [only] ∧
      parts (name ++ "(" ++ t ++ ")") = [name.toList ++ '(' :: only ++ [')']]) ∨
    ∃ first middle last, parts t = first :: middle ++ [last] ∧
      parts (name ++ "(" ++ t ++ ")") =
        (name.toList ++ '(' :: first) :: middle ++ [last ++ [')']] := by
  have hne : t.toList ≠ [] := fun h => hne (String.toList_inj.mp h)
  have htext : (name ++ "(" ++ t ++ ")").toList = name.toList ++ '(' :: t.toList ++ [')'] := by simp
  have hdot : ∀ piece ∈ pieces '.' t.toList, '.' ∉ piece := fun _ => not_mem_of_mem_pieces
  have hjoined := joinDots_pieces t.toList
  rw [parts, parts, htext]
  obtain ⟨first, rest, hpieces⟩ := List.exists_cons_of_ne_nil (pieces_ne_nil '.' t.toList)
  rw [hpieces] at hdot hjoined ⊢
  obtain rfl | ⟨middle, last, rfl⟩ := List.eq_nil_or_concat' rest
  · obtain rfl : first = t.toList := hjoined
    refine .inl ⟨t.toList, by simp [hne], ?_⟩
    rw [pieces_of_not_mem (by simpa [hname] using hdot)]
    simp
  · rw [← List.cons_append] at hdot hjoined ⊢
    -- No piece at an end is empty, since the text neither starts nor ends with a dot.
    have hfirst : first ≠ [] := by
      rintro rfl
      rw [← hjoined, List.cons_append, joinDots_cons _ (by simp)] at hfirst
      exact hfirst rfl
    have hlast : last ≠ [] := by
      rintro rfl
      rw [← hjoined, joinDots_append (List.cons_ne_nil _ _) (List.cons_ne_nil _ _)] at hlast
      exact hlast List.getLast?_concat
    refine .inr ⟨first, middle.filter (· ≠ []), last, by simp [hfirst, hlast], ?_⟩
    have hwhole : name.toList ++ '(' :: t.toList ++ [')'] =
        joinDots ((name.toList ++ '(' :: first) :: middle ++ [last ++ [')']]) := by
      rw [joinDots_close, List.cons_append, joinDots_open, ← List.cons_append, hjoined]
    have hcall : ∀ piece ∈ (name.toList ++ '(' :: first) :: middle ++ [last ++ [')']], '.' ∉ piece := by
      simp only [List.forall_mem_append, List.forall_mem_cons] at hdot ⊢
      simpa [hname] using ⟨hdot.1, hdot.2.1⟩
    rw [hwhole, pieces_join (by simp) hcall]
    simp [hlast]

/-- A call over a column has the segments of that column. -/
theorem ofText_call {name t : String} (hname : '.' ∉ name.toList) (hne : t ≠ "")
    (hfirst : '.' ∉ t.toList.head?) (hlast : '.' ∉ t.toList.getLast?) :
    ofText (name ++ "(" ++ t ++ ")") .column =
      { ofText t .column with text := name ++ "(" ++ t ++ ")" } := by
  rw [ofText_eq, ofText_eq]
  obtain ⟨only, ht, hcall⟩ | ⟨first, middle, last, ht, hcall⟩ := parts_call hname hne hfirst hlast
  · have hsegment : segment (name.toList ++ '(' :: only ++ [')']) = segment only := by
      rw [segment_close, segment_open]
    simp only [ht, hcall, List.reverse_singleton, assemble, hsegment, whole]
  · obtain ⟨back, rfl⟩ : ∃ back, middle = back.reverse := ⟨middle.reverse, by simp⟩
    have hback (front last : List Char) :
        (front :: back.reverse ++ [last]).reverse = last :: (back ++ [front]) := by simp
    rw [ht, hcall, hback, hback]
    rcases back with _ | ⟨table, _ | ⟨other, leading⟩⟩
    · simp [assemble, whole, segment_open, segment_close]
    · simp [assemble, whole, segment_open, segment_close, joinDots]
    · have hreverse (front : List Char) :
          (other :: (leading ++ [front])).reverse = front :: (leading.reverse ++ [other]) := by simp
      simp only [List.cons_append, assemble, hreverse, segment_close, joinDots_open, segment_open, whole]

end QualifiedName

/-! ## The functions that expressions call -/

namespace Registry

variable {r : Registry}

/-- No function has a name with a quote in it. -/
def SparesQuotes (r : Registry) : Prop := ∀ name ∈ r.names, ¬ Quoted name

theorem SparesQuotes.isFunction (h : r.SparesQuotes) {name : String} (hname : Quoted name) :
    r.isFunction name = false := by
  have hnone : r.entries.lookup (normalName name) = none := by
    rw [List.lookup_eq_none_iff]
    intro entry hentry
    rw [bne_iff_ne]
    intro heq
    exact h entry.1 (List.mem_map_of_mem hentry) (heq ▸ quoted_normalName.mpr hname)
  rw [Registry.isFunction, arity?, hnone, Option.isSome_none]

theorem SparesQuotes.unquoted (h : r.SparesQuotes) {name : String} (hknown : r.isFunction name = true) :
    ¬ Quoted name := fun hname => by
  rw [h.isFunction hname] at hknown
  cases hknown

theorem call?_unknown {text : String} (h : r.isFunction (callee text) = false) :
    r.call? text = none := by
  rw [callee] at h
  simp [call?, isFunction_trim, h]

theorem call?_known {name : String} (hname : Token.IsName name) (hknown : r.isFunction name = true)
    (hparen : '(' ∉ name.toList) (rest : String) : r.call? (name ++ "(" ++ rest) = some name := by
  have hcallee := callee_append hparen rest
  rw [callee] at hcallee
  obtain ⟨c, cs, hs, -⟩ := hname.first
  have hbefore : (name ++ "(" ++ rest).toList.takeWhile (· != '(') = name.toList := by
    rw [← String.toList_ofList (l := List.takeWhile _ _), hcallee]
  simp only [call?, hbefore, String.ofList_toList, hname.trim, hknown]
  simp [hs]

end Registry

/-- A name without a quote in it is a word. -/
theorem Token.IsName.word_of_unquoted {name : String} (h : IsName name)
    (hquoted : ¬ Registry.Quoted name) {c : Char} (hc : c ∈ name.toList) :
    Lexeme.continuesName c = true := by
  cases h with
  | word hword _ => exact Text.continuesName_of_isWordText hword hc
  | quoted cs => exact absurd (.inr (by simp)) hquoted

/-- The text of a column is not empty and has no dot at its ends. -/
theorem IsColumn.edges {t : String} (h : IsColumn t) :
    t ≠ "" ∧ '.' ∉ t.toList.head? ∧ '.' ∉ t.toList.getLast? := by
  have hdotted {ks : List Token.Kind} {t : String} (hks : Token.Written ks) (h : Rule.Dotted ks t) :
      t.toList ≠ [] ∧ '.' ∉ t.toList.head? ∧ '.' ∉ t.toList.getLast? := by
    constructor
    · cases h with
      | one =>
        obtain ⟨c, cs, hs, -⟩ := (Token.written_cons.mp hks).1.first
        simp [hs]
      | more => simp
    · obtain ⟨names, -, rfl, rfl⟩ := h.names
      have hnames (n : String) (hn : n ∈ names) : Token.IsName n := hks _ (Token.mem_dotted hn)
      rw [QualifiedName.toList_join]
      exact ⟨fun hc => absurd (QualifiedName.joinDots_edges hnames (.inl hc)) (by decide),
        fun hc => absurd (QualifiedName.joinDots_edges hnames (.inr hc)) (by decide)⟩
  obtain ⟨ks, hks, hcolumn⟩ := h
  cases hcolumn with
  | dotted h =>
    obtain ⟨hne, hedges⟩ := hdotted hks h
    exact ⟨fun ht => hne (by rw [ht]; rfl), hedges⟩
  | @all ks t h =>
    obtain ⟨hne, hfirst, -⟩ := hdotted (Token.written_append.mp hks).1 h
    rw [String.toList_append, List.head?_append_of_ne_nil _ hne]
    exact ⟨by simp, hfirst, by simp⟩

open Registry

namespace Expr

variable {r : Registry} (hr : r.SparesOperators) (hq : r.SparesQuotes)

include hr hq

/-- The text of an expression calls a function if the expression is a call, and otherwise calls
    nothing. -/
theorem call?_render {e : Expr} (he : e.Free r) (hcolumn : e.isColumn = false) :
    (∃ name args, e = .call name args ∧ '.' ∉ (Text.upper name).toList ∧
      r.call? (e.render r) = some (Text.upper name)) ∨
    (∀ op, e = .operation op → op.call = false) ∧ r.call? (e.render r) = none := by
  obtain ⟨hformed, -, hplain⟩ := he
  cases hformed with
  | placeholder =>
    refine .inr ⟨fun _ => Expr.noConfusion, ?_⟩
    rw [Expr.render, call?_bare (by simp)]
  | query =>
    refine .inr ⟨fun _ => Expr.noConfusion, ?_⟩
    rw [Expr.render_query, String.append_assoc, call?_paren]
  | @constant c hform =>
    refine .inr ⟨fun _ => Expr.noConfusion, ?_⟩
    rw [Expr.render]
    cases hform with
    | star | column => cases hcolumn
    | null => exact call?_bare (by decide)
    | number hnumber => exact call?_bare hnumber.no_paren
    | string =>
      exact call?_unknown (hq.isFunction (.inl (mem_callee (by decide) (by simp [Constant.render]))))
  | @operation op hform _ =>
    rw [Expr.render_operation]
    obtain ⟨hcall, name, hname, hknown, hop⟩ | ho | ho := hform.operator_cases
    · obtain ⟨o, operands, call⟩ := op
      obtain rfl : call = true := hcall
      obtain rfl : o = Text.upper name := hop
      rw [← isFunction_upper] at hknown
      have hword {c : Char} (hc : Lexeme.continuesName c = false) : c ∉ (Text.upper name).toList :=
        fun hmem => by
          rw [hname.upper.word_of_unquoted (hq.unquoted hknown) hmem] at hc
          cases hc
      refine .inl ⟨name, operands, rfl, hword (by decide), ?_⟩
      rw [Operation.layout_call, String.append_assoc]
      exact call?_known hname.upper hknown (hword (by decide)) _
    · have happlied : ∀ o ∈ Operator.bracketed, o ∈ Operator.applied := by decide
      refine .inr ⟨fun op' heq => ?_, ?_⟩
      · obtain rfl := Expr.operation.inj heq
        exact Bool.eq_false_iff.mpr fun hcall => hform.wellFormed.call.mp hcall (happlied _ ho)
      · obtain ⟨rest, hrest⟩ | ⟨rest, hrest⟩ := op.layout_bracketed ho (op.operands.map (render r))
        · refine call?_unknown ?_
          rw [hrest, callee_append (Operator.bracketed_plain _ ho).1]
          exact hr.isFunction (Operator.bracketed_subset _ ho)
        · rw [hrest, call?_paren]
    · exact absurd ho (hplain _ rfl)

end Expr

/-! ## Items -/

theorem Expr.isColumn_iff {e : Expr} : e.isColumn = true ↔ ∃ t, e = .column t := by
  constructor
  · intro h
    cases e with
    | constant c =>
      obtain ⟨kind, t⟩ := c
      obtain rfl : kind = .column := by simpa [isColumn] using h
      exact ⟨t, rfl⟩
    | operation | query | placeholder => cases h
  · rintro ⟨t, rfl⟩
    rfl

theorem Expr.isOverColumn_call {name : String} {args : List Expr}
    (h : (call name args).isOverColumn = true) : ∃ t, args = [.column t] := by
  cases args with
  | nil => cases h
  | cons arg rest =>
    cases rest with
    | nil =>
      obtain ⟨t, rfl⟩ := isColumn_iff.mp h
      exact ⟨t, rfl⟩
    | cons => cases h

/-- The text of a column that is the argument of a call can be put between parentheses. -/
theorem Expr.Formed.argument_edges {r : Registry} {name t : String}
    (h : (call name [.column t]).Formed r) :
    t ≠ "" ∧ '.' ∉ t.toList.head? ∧ '.' ∉ t.toList.getLast? := by
  have hargument : (Expr.column t).Formed r := h.children _ (List.mem_singleton_self _)
  cases hargument with
  | constant hform =>
    cases hform with
    | star => decide
    | column ht => exact ht.edges

namespace SelectItem

variable {r : Registry} {e : Expr} (hr : r.SparesOperators) (hq : r.SparesQuotes) (he : e.Free r)
  (hcolumn : e.isColumn = false)

include hr hq he hcolumn

theorem function_ofExpr {N : String} :
    (ofExpr r e).function = some N ↔
      ∃ op, e = .operation op ∧ op.call = true ∧ N = Text.upper op.operator := by
  have hfunction : (ofExpr r e).function = r.call? (e.render r) := by
    unfold ofExpr
    split
    · cases hcolumn
    · rfl
  rw [hfunction]
  obtain ⟨name, args, rfl, -, hcall⟩ | ⟨hother, hnone⟩ := Expr.call?_render hr hq he hcolumn
  · rw [hcall]
    constructor
    · intro h
      exact ⟨_, rfl, rfl, by rw [Text.upper_upper, Option.some.inj h]⟩
    · rintro ⟨op, heq, -, rfl⟩
      obtain rfl := Expr.operation.inj heq
      rw [Text.upper_upper]
  · rw [hnone]
    constructor
    · intro h
      cases h
    · rintro ⟨op, heq, hcall, -⟩
      rw [hother op heq] at hcall
      cases hcall

/-- Only a call over a column has a name with segments, those of the column. -/
theorem name_ofExpr :
    (∃ o t, e = .operation ⟨o, [.column t], true⟩ ∧
      (ofExpr r e).name = { QualifiedName.ofText t .column with text := e.render r }) ∨
    (∀ o t, e ≠ .operation ⟨o, [.column t], true⟩) ∧ (ofExpr r e).name = .whole (e.render r) := by
  have hname : (ofExpr r e).name =
      if (r.call? (e.render r)).isSome && e.isOverColumn then QualifiedName.ofText (e.render r) .column
      else .whole (e.render r) := by
    unfold ofExpr
    split
    · cases hcolumn
    · rfl
  rw [hname]
  obtain ⟨name, args, rfl, hdot, hcall⟩ | ⟨hother, hnone⟩ := Expr.call?_render hr hq he hcolumn
  · by_cases hover : (Expr.call name args).isOverColumn = true
    · obtain ⟨t, rfl⟩ := Expr.isOverColumn_call hover
      obtain ⟨hne, hfirst, hlast⟩ := he.1.argument_edges
      refine .inl ⟨_, t, rfl, ?_⟩
      have hrender : (Expr.call name [.column t]).render r = Text.upper name ++ "(" ++ t ++ ")" := by
        rw [Expr.call, Expr.render_operation, Operation.layout_call]
        rfl
      rw [if_pos (by rw [hcall, hover]; rfl), hrender, QualifiedName.ofText_call hdot hne hfirst hlast]
    · refine .inr ⟨?_, by simp [hover]⟩
      rintro o t heq
      rw [heq] at hover
      exact hover rfl
  · refine .inr ⟨fun o t heq => ?_, by simp [hnone]⟩
    cases hother _ heq

end SelectItem

/-- The item is a call whose only argument is that column. -/
def SelectItem.CallsOver (i : SelectItem Expr) (t : String) : Prop :=
  ∃ o, i.expression = some (.operation ⟨o, [.column t], true⟩)

/-- What an item of a select list says of its expression. -/
structure SelectItem.Tagged (r : Registry) (i : SelectItem Expr) : Prop where
  /-- The function of the item is that of the call it holds. -/
  function : ∀ N, i.function = some N ↔
    ∃ op, i.expression = some (.operation op) ∧ op.call = true ∧ N = Text.upper op.operator
  /-- Only columns and calls over a single column have segments. -/
  segments : i.name.segments ≠ [] → (∃ t a, i = (SelectItem.column t).aliased a) ∨ ∃ t, i.CallsOver t
  /-- A call over a single column has the segments of the column. -/
  call : ∀ t, i.CallsOver t →
    i.name.schema = (QualifiedName.ofText t .column).schema ∧
    i.name.table = (QualifiedName.ofText t .column).table ∧
    i.name.column = (QualifiedName.ofText t .column).column
  /-- Whatever else the item holds, its name is the whole text of that. -/
  whole : (∀ t a, i ≠ (SelectItem.column t).aliased a) → (∀ t, ¬ i.CallsOver t) →
    ∃ e, i.expression = some e ∧ i.name.text = e.render r ∧ i.name.segments = []

theorem QualifiedName.segments_aliased (n : QualifiedName) (a : Option String) :
    (n.aliased a).segments = n.segments := by
  cases a <;> rfl

namespace SelectItem

variable {r : Registry}

theorem function_aliased (i : SelectItem Expr) (a : Option String) :
    (i.aliased a).function = i.function := by
  cases a <;> rfl

theorem name_aliased (i : SelectItem Expr) (a : Option String) :
    (i.aliased a).name = i.name.aliased a := by
  cases a <;> rfl

theorem tagged_column (t : String) (a : Option String) : ((column t).aliased a).Tagged r := by
  have hcolumn {e : Expr} (h : ((column t).aliased a).expression = some e) : e = .column t := by
    rw [expression_aliased] at h
    exact expression_column h
  exact {
    function := fun N => by
      rw [function_aliased]
      exact ⟨nofun, fun ⟨_, h, _⟩ => nomatch hcolumn h⟩
    segments := fun _ => .inl ⟨t, a, rfl⟩
    call := fun _ ⟨_, h⟩ => nomatch hcolumn h
    whole := fun hother => absurd rfl (hother t a) }

theorem tagged_ofExpr (hr : r.SparesOperators) (hq : r.SparesQuotes) {e : Expr} (he : e.Free r)
    (hcolumn : e.isColumn = false) (a : Option String) : ((ofExpr r e).aliased a).Tagged r := by
  have hexpression : ((ofExpr r e).aliased a).expression = some e := by
    rw [expression_aliased, expression_ofExpr hcolumn]
  have hcalls {o t : String} (h : e = .operation ⟨o, [.column t], true⟩) :
      ((ofExpr r e).aliased a).CallsOver t := ⟨o, hexpression.trans (congrArg some h)⟩
  have hname := name_ofExpr hr hq he hcolumn
  constructor
  · intro N
    rw [function_aliased, hexpression, function_ofExpr hr hq he hcolumn]
    simp only [Option.some.injEq]
  · intro hsegments
    obtain ⟨o, t, heq, -⟩ | ⟨-, hwhole⟩ := hname
    · exact .inr ⟨t, hcalls heq⟩
    · rw [name_aliased, QualifiedName.segments_aliased, hwhole] at hsegments
      exact absurd rfl hsegments
  · rintro t ⟨o, hcall⟩
    obtain rfl : e = .operation ⟨o, [.column t], true⟩ := Option.some.inj (hexpression.symm.trans hcall)
    obtain ⟨_, t', heq, hsegments⟩ | ⟨hother, -⟩ := hname
    · have hargs : [Expr.column t] = [Expr.column t'] := (Operation.mk.inj (Expr.operation.inj heq)).2.1
      obtain rfl : t = t' := (Constant.mk.inj (Expr.constant.inj (List.singleton_inj.mp hargs))).2
      rw [name_aliased, hsegments]
      cases a <;> exact ⟨rfl, rfl, rfl⟩
    · exact absurd rfl (hother o t)
  · intro _ hother
    refine ⟨e, hexpression, ?_⟩
    obtain ⟨o, t, heq, -⟩ | ⟨-, hwhole⟩ := hname
    · exact absurd (hcalls heq) (hother t)
    · rw [name_aliased, QualifiedName.aliased_text, QualifiedName.segments_aliased, hwhole]
      exact ⟨rfl, rfl⟩

theorem Form.tagged (hr : r.SparesOperators) (hq : r.SparesQuotes) {i : SelectItem Expr}
    (h : i.Form r) (hformed : ∀ e ∈ i.expression, e.Formed r) : i.Tagged r := by
  cases h with
  | all => exact tagged_column "*" none
  | column _ _ => exact tagged_column _ _
  | @expression e a hcolumn hplain _ =>
    refine tagged_ofExpr hr hq ⟨hformed e ?_, hplain⟩ hcolumn a
    rw [expression_aliased, expression_ofExpr hcolumn]
    rfl

end SelectItem

/-- The item stands in a select list somewhere in the statement. -/
def Statement.HasItem (s : Statement) (i : SelectItem Expr) : Prop :=
  ∃ e ∈ s.parts, ∃ q, e.Holds (.query q) ∧ i ∈ q.items

theorem Statement.Formed.tagged {r : Registry} (hr : r.SparesOperators) (hq : r.SparesQuotes)
    {s : Statement} (h : s.Formed r) {i : SelectItem Expr} (hi : s.HasItem i) : i.Tagged r := by
  obtain ⟨e, he, q, hholds, hi⟩ := hi
  cases (h.parts_free e he).1.holds hholds with
  | query hform hparts =>
    exact (hform.item i hi).tagged hr hq fun x hx => hparts x (Query.mem_parts.mpr (.inl ⟨i, hi, hx⟩))

/-- If no function is named like an operator or with a quote in its name, then in every statement that
    is read at any place of a text, and in all its subqueries, the select items name the functions they
    call, and their names have the segments of columns and are whole otherwise. -/
theorem items_tagged (r : Registry) (hr : r.SparesOperators) (hq : r.SparesQuotes) (text : String)
    (c : Cursor) (hc : (Cursor.ofText text).Reaches c) :
    (∀ s, (Grammar.statement? r c).1 = .ok (some s) → ∀ i, s.HasItem i → i.Tagged r) ∧
    (∀ ss, (Grammar.statements r c).1 = .ok ss → ∀ s ∈ ss, ∀ i, s.HasItem i → i.Tagged r) := by
  refine ⟨fun s h i hi => ?_, fun ss h s hs i hi => ?_⟩
  · exact (Grammar.statement?_formed hc (Prod.ext h rfl)).tagged hr hq hi
  · exact (Grammar.statements_formed hc (Prod.ext h rfl) s hs).tagged hr hq hi

theorem items_tagged_nested :
    ∃ s, (Grammar.statement? Registry.builtin (Cursor.ofText
        "select sum(s.t.a) x, 'max(', max(avg(b)) from t where exists (select min(c) from u)")).1 =
          .ok (some s) ∧
      ∀ i, s.HasItem i → i.Tagged Registry.builtin := by
  have hquotes : ∀ name ∈ Registry.builtin.names,
      ¬ ('\x27' ∈ name.toList ∨ '\x22' ∈ name.toList) := by decide
  have hread : ((Grammar.statement? Registry.builtin (Cursor.ofText
      "select sum(s.t.a) x, 'max(', max(avg(b)) from t where exists (select min(c) from u)")).1.toOption.bind
        id).isSome = true := by
    decide +kernel
  obtain ⟨s, hs⟩ := ok_of_isSome hread
  exact ⟨s, hs, (items_tagged _ Registry.builtin_sparesOperators hquotes _ _ (.refl _)).1 s hs⟩

end SqlFront
