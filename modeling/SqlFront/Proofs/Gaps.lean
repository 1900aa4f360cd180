import SqlFront.Proofs.OtherFunctions
import SqlFront.Proofs.RoundTrip
import SqlFront.Proofs.Templates

/-! # Expressions with another literal

`Expr.Gap` tells the places in an expression where a string literal stands. Main statement: where the
expression has been read, the literal is a gap in the tokens of its text, and the only one. Each lemma
says that of one kind of operation or clause, for any texts of its parts.
-/

namespace SqlFront

/-! ## The places of a literal -/

/-- The places in an expression where a string literal stands: what the expression is for each value of
    that literal. An item that shows the literal may have it in its name too. -/
inductive Expr.Gap : (String → Expr) → Prop
  | here : Gap Expr.string
  | operand {o before call after} {f : String → Expr} : Gap f →
      Gap fun v => .operation ⟨o, before ++ f v :: after, call⟩
  | item {q : Query Expr} {before after aliasName} {name : String → QualifiedName}
      {f : String → Expr} {function : String → Option String} : Gap f →
      (∀ v, (name v).aliasName = aliasName) →
      Gap fun v => .query { q with items := before ++ ⟨name v, some (f v), function v⟩ :: after }
  | condition {q : Query Expr} {f : String → Expr} : Gap f →
      Gap fun v => .query { q with condition := some (f v) }
  | group {q : Query Expr} {before after having} {f : String → Expr} : Gap f →
      Gap fun v => .query { q with groupBy := some ⟨before ++ f v :: after, having⟩ }
  | having {q : Query Expr} {exprs} {f : String → Expr} : Gap f →
      Gap fun v => .query { q with groupBy := some ⟨exprs, some (f v)⟩ }
  | set {q : Query Expr} {o before after call} {f : String → Expr} : Gap f →
      Gap fun v => .query { q with setOperation := some ⟨o, before ++ f v :: after, call⟩ }
  | order {q : Query Expr} {before ascending after} {f : String → Expr} : Gap f →
      Gap fun v => .query { q with orderBy := before ++ ⟨f v, ascending⟩ :: after }

/-- Whether an expression is a subquery. -/
def Expr.isQuery : Expr → Bool
  | .query _ => true
  | _ => false

theorem Expr.Gap.isQuery {f : String → Expr} (h : Expr.Gap f) (v w : String) :
    (f v).isQuery = (f w).isQuery := by
  cases h <;> rfl

theorem Expr.Gap.not_column {f : String → Expr} (h : Expr.Gap f) (v : String) :
    (f v).isColumn = false := by
  cases h <;> rfl

/-- A literal of an operand has its place in the operation. -/
theorem Expr.Gap.of_operand {op : Operation Expr} {f : String → Expr} (h : Gap f) {v : String}
    (hv : f v ∈ op.operands) : ∃ g, Gap g ∧ g v = .operation op := by
  obtain ⟨o, operands, call⟩ := op
  obtain ⟨before, after, rfl⟩ := List.append_of_mem hv
  exact ⟨_, .operand h, rfl⟩

/-- A literal of any part of a query has its place in the query. -/
theorem Expr.Gap.of_part {q : Query Expr} {f : String → Expr} (h : Gap f) {v : String}
    (hv : f v ∈ q.parts) : ∃ g, Gap g ∧ g v = .query q := by
  have hwhere := Query.mem_parts.mp hv
  obtain ⟨distinct, items, sources, condition, group, set, order, locked⟩ := q
  obtain ⟨⟨name, _, function⟩, hi, rfl⟩ | rfl | ⟨⟨exprs, having⟩, rfl, he | rfl⟩ | ⟨⟨o, es, call⟩, rfl, he⟩ |
    ⟨⟨_, ascending⟩, hentry, rfl⟩ := hwhere
  · obtain ⟨before, after, rfl⟩ := List.append_of_mem hi
    have hgap : Gap fun v => .query ⟨distinct, before ++ ⟨name, some (f v), function⟩ :: after, sources,
        condition, group, set, order, locked⟩ :=
      .item (q := ⟨distinct, [], sources, condition, group, set, order, locked⟩) h fun _ => rfl
    exact ⟨_, hgap, rfl⟩
  · exact ⟨_, .condition (q := ⟨distinct, items, sources, none, group, set, order, locked⟩) h, rfl⟩
  · obtain ⟨before, after, rfl⟩ := List.append_of_mem he
    exact ⟨_, .group (q := ⟨distinct, items, sources, condition, none, set, order, locked⟩) h, rfl⟩
  · exact ⟨_, .having (q := ⟨distinct, items, sources, condition, none, set, order, locked⟩) h, rfl⟩
  · obtain ⟨before, after, rfl⟩ := List.append_of_mem he
    exact ⟨_, .set (q := ⟨distinct, items, sources, condition, group, none, order, locked⟩) h, rfl⟩
  · obtain ⟨before, after, rfl⟩ := List.append_of_mem hentry
    exact ⟨_, .order (q := ⟨distinct, items, sources, condition, group, set, [], locked⟩) h, rfl⟩

/-- A literal that an expression holds at any depth. -/
inductive Expr.HasString (v : String) : Expr → Prop
  | here : HasString v (.string v)
  | operand {op e} : e ∈ op.operands → HasString v e → HasString v (.operation op)
  | part {q e} : e ∈ q.parts → HasString v e → HasString v (.query q)

/-- No literal is without a place. -/
theorem Expr.HasString.gap {v : String} {e : Expr} (h : e.HasString v) : ∃ f, Gap f ∧ f v = e := by
  induction h with
  | here => exact ⟨_, .here, rfl⟩
  | operand hmem _ ih =>
    obtain ⟨f, hf, rfl⟩ := ih
    exact hf.of_operand hmem
  | part hmem _ ih =>
    obtain ⟨f, hf, rfl⟩ := ih
    exact hf.of_part hmem

namespace Grammar

open Token Kind

variable {r : Registry}

/-! ## Expressions without gaps -/

/-- A quantifier stands before a query. -/
theorem quantified_query {op : Operation Expr} (h : op.Form r) (ho : op.operator ∈ Operator.quantifiers) :
    ∃ q, op = ⟨op.operator, [.query q], false⟩ := by
  have hbracketed : ∀ o ∈ Operator.bracketed, o ∉ Operator.quantifiers := by decide
  cases h with
  | quantifier => exact ⟨_, rfl⟩
  | call hname => exact absurd (Operator.quantifiers_subset _ ho) hname.upper.not_operator
  | not | sign | list | «exists» => exact absurd ho (hbracketed _ (by simp [Operator.bracketed]))
  | comparison h | like h | range h | membership h | nullTest h | chain h =>
    exact absurd ho (hbracketed _ (by simp [Operator.bracketed, h]))

/-- What is written for an expression that has been read consists of whole tokens. -/
theorem formed_spells (hr : r.SparesOperators) {e : Expr} (h : e.Formed r) :
    ∃ ks, Spells (e.render r) ks := by
  by_cases hstar : e = Expr.star
  · exact hstar ▸ ⟨_, spells_star⟩
  by_cases hquantifier : ∃ op, e = .operation op ∧ op.operator ∈ Operator.quantifiers
  · obtain ⟨op, rfl, ho⟩ := hquantifier
    cases h with
    | operation hform hoperands =>
      obtain ⟨q, hop⟩ := quantified_query hform ho
      have hq := queryRestored_of_formed hr (hoperands (.query q) (by rw [hop]; simp))
      obtain ⟨word, -, hword⟩ := quantifier_spelled ho
      obtain ⟨ks, hs, -⟩ := hq.restored
      rw [hop, Expr.render_operation, List.map_cons, List.map_nil, layout_quantifier hr ho]
      exact ⟨_, SpellsAlways.append hword.space_after hs⟩
  · obtain ⟨ks, hs, -⟩ := restored_of_free hr
      ⟨h, hstar, fun op hop ho => hquantifier ⟨op, hop, ho⟩⟩
    exact ⟨ks, hs⟩

/-! ## Operations -/

theorem starts_between (o : String) : startsBoundary (" " ++ o ++ " ") = true := by
  simp [startsBoundary]

theorem infix_spelled {o : String} (h : o ∈ infixes) : ∃ ks, SpellsAlways (" " ++ o ++ " ") ks := by
  simp only [infixes, List.mem_append] at h
  obtain (h | h) | h := h
  · obtain ⟨k, -, hs, -⟩ := chain_spelled h
    exact ⟨_, hs⟩
  · obtain ⟨k, -, hs, -⟩ := comparison_spelled h
    exact ⟨_, hs⟩
  · obtain ⟨negated, -, hs⟩ := like_spelled h
    exact ⟨_, hs⟩

theorem prefix_spelled {o : String} (h : o ∈ [Operator.not, Operator.minus, Operator.exist]) :
    ∃ ks, SpellsAlways (o ++ " ") ks := by
  simp only [List.mem_cons, List.not_mem_nil, or_false] at h
  obtain rfl | rfl | rfl := h
  · have hs : Spells Operator.not [.keyword .not] := spells_words ["NOT"] (by decide)
    exact ⟨_, hs.space_after⟩
  · exact ⟨_, spells_sign .minus⟩
  · have hs : Spells Operator.exist [.keyword .exists] := spells_words ["EXISTS"] (by decide)
    exact ⟨_, hs.space_after⟩

/-- Only a single subquery brings its own parentheses. -/
theorem membershipText_eq (es : List Expr) (texts : List String) :
    membershipText es texts =
      if es.map Expr.isQuery = [true] then Text.join ", " texts
      else "(" ++ Text.join ", " texts ++ ")" := by
  unfold membershipText
  split
  · rfl
  · rename_i hother
    rw [if_neg]
    intro hquery
    obtain ⟨e, rfl, he⟩ := List.map_eq_singleton_iff.mp hquery
    cases e with
    | query q => exact hother q rfl
    | constant | operation | placeholder => cases he

section

variable {n : Nat} {o : String} {es : String → List Expr}
  (hes : WovenList n fun v => (es v).map (Expr.render r))

include hes

theorem infix_woven (hr : r.SparesOperators) (ho : o ∈ infixes) (hlong : ∀ v, 2 ≤ (es v).length) :
    Woven n fun v => (Expr.operation ⟨o, es v, false⟩).render r := by
  obtain ⟨ks, hs⟩ := infix_spelled ho
  refine (hes.join hs (starts_between o)).parens.congr fun v => ?_
  rw [Expr.render_operation, layout_chained hr ho (hlong v)]

/-- An operation on one operand has the gaps of the text that is put together with it. -/
theorem single_woven (hone : ∀ v, (es v).length = 1) {layout : String → String}
    (hlayout : ∀ a x, Operation.layout r ⟨o, [a], false⟩ [x] = layout x)
    (hwoven : ∀ t, Woven n t → Woven n fun v => layout (t v)) :
    Woven n fun v => (Expr.operation ⟨o, es v, false⟩).render r := by
  obtain ⟨t, ht, hall⟩ := hes.single fun v => by rw [List.length_map, hone v]
  refine (hwoven t ht).congr fun v => ?_
  obtain ⟨a, ha⟩ := List.length_eq_one_iff.mp (hone v)
  rw [Expr.render_operation, hall, ha, hlayout]

theorem prefix_woven (hr : r.SparesOperators) (ho : o ∈ [Operator.not, Operator.minus, Operator.exist])
    (hone : ∀ v, (es v).length = 1) : Woven n fun v => (Expr.operation ⟨o, es v, false⟩).render r := by
  obtain ⟨ks, hs⟩ := prefix_spelled ho
  exact single_woven hes hone (fun a x => layout_before hr ho) fun t ht => (ht.behind hs).parens

theorem nullTest_woven (hr : r.SparesOperators) (ho : o ∈ Operator.nullTests)
    (hone : ∀ v, (es v).length = 1) : Woven n fun v => (Expr.operation ⟨o, es v, false⟩).render r := by
  obtain ⟨negated, -, hs⟩ := nullTest_spelled ho
  have hafter : Trailing 0 fun _ => " " ++ o :=
    trailing_const (SpellsBefore.space_before hs) (separate_append _ (by decide))
  exact single_woven hes hone (fun a x => layout_after hr ho) fun t ht => (ht.append hafter).parens

theorem quantifier_woven (hr : r.SparesOperators) (ho : o ∈ Operator.quantifiers)
    (hone : ∀ v, (es v).length = 1) : Woven n fun v => (Expr.operation ⟨o, es v, false⟩).render r := by
  obtain ⟨word, -, hword⟩ := quantifier_spelled ho
  exact single_woven hes hone (fun a x => layout_quantifier hr ho) fun t ht => ht.behind hword.space_after

theorem range_woven (hr : r.SparesOperators) (ho : o ∈ Operator.ranges)
    (hthree : ∀ v, (es v).length = 3) : Woven n fun v => (Expr.operation ⟨o, es v, false⟩).render r := by
  obtain ⟨negated, -, hs⟩ := range_spelled ho
  have hand : SpellsAlways " AND " [.keyword .and] := spells_between ["AND"] (by decide)
  obtain ⟨l, m, x, ts, rfl, hx, hts, htexts⟩ := hes.uncons fun v => by
    simp [← List.length_pos_iff, hthree]
  have htwo (v : String) : (ts v).length = 2 := by
    simpa [hthree] using (congrArg List.length (htexts v)).symm
  obtain ⟨m, k, y, ts', rfl, hy, hts', htexts'⟩ := hts.uncons fun v => by
    simp [← List.length_pos_iff, htwo]
  obtain ⟨z, hz, htexts''⟩ := hts'.single fun v => by
    simpa [htwo] using (congrArg List.length (htexts' v)).symm
  have hbounds := (hy.trailing hs (starts_between o)).append (hz.trailing hand (by decide))
  refine (hx.append hbounds).parens.congr fun v => ?_
  obtain ⟨a, b, c, habc⟩ := List.length_eq_three.mp (hthree v)
  rw [Expr.render_operation, htexts, htexts', htexts'', habc, layout_range hr ho]
  simp only [String.append_assoc]

/-- A value is tested against a row of candidates, each of which is a subquery or not whatever the gaps
    are filled with. -/
theorem membership_woven (hr : r.SparesOperators) (ho : o ∈ Operator.memberships)
    (hlong : ∀ v, 2 ≤ (es v).length) {queries : List Bool}
    (hqueries : ∀ v, (es v).tail.map Expr.isQuery = queries) :
    Woven n fun v => (Expr.operation ⟨o, es v, false⟩).render r := by
  obtain ⟨negated, -, hs⟩ := membership_spelled ho
  obtain ⟨l, m, x, ts, rfl, hx, hts, htexts⟩ := hes.uncons fun v hnil => by
    simpa [List.map_eq_nil_iff.mp hnil] using hlong v
  have hjoin := hts.join spells_commaSpace (by decide)
  have hcandidates : Woven m fun v =>
      if queries = [true] then Text.join ", " (ts v) else "(" ++ Text.join ", " (ts v) ++ ")" := by
    split
    · exact hjoin
    · exact hjoin.parens
  refine (hx.append (hcandidates.trailing hs (starts_between o))).parens.congr fun v => ?_
  obtain ⟨a, candidates, hv⟩ := List.exists_cons_of_length_pos (Nat.lt_of_lt_of_le Nat.two_pos (hlong v))
  have hne : candidates ≠ [] := by
    rintro rfl
    simpa [hv] using hlong v
  have hqueries' : candidates.map Expr.isQuery = queries := by simpa [hv] using hqueries v
  rw [Expr.render_operation, htexts, hv, layout_membership hr ho hne, membershipText_eq, hqueries']

theorem call_woven {name : String} (hname : IsName name) :
    Woven n fun v => (Expr.operation ⟨Text.upper name, es v, true⟩).render r := by
  have hlead : SpellsAlways (Text.upper name ++ "(") _ :=
    Spells.append_starts ((spells_name hname.upper).weaken fun _ => Boundary.nameEnd)
      spells_leftParen (by decide)
  have hclose : Trailing 0 fun _ => ")" := trailing_const (spells_rightParen.weaken fun _ _ => trivial)
    fun rest _ => boundary_of_starts (by decide) rest
  refine (((hes.join spells_comma (by decide)).behind hlead).append hclose).congr fun v => ?_
  rw [Expr.render_operation, Operation.layout_call]

/-- An operation with other operands in the places of those that have been read: its text has the gaps of
    theirs. A subquery may only take the place of a subquery. -/
theorem operation_woven (hr : r.SparesOperators) {op : Operation Expr} (hform : op.Form r)
    (hqueries : ∀ v, (es v).map Expr.isQuery = op.operands.map Expr.isQuery) :
    Woven n fun v => (Expr.operation ⟨op.operator, es v, op.call⟩).render r := by
  have hlength (v : String) : (es v).length = op.operands.length := by
    simpa using congrArg List.length (hqueries v)
  cases hform with
  | comparison ho => exact infix_woven hes hr (by simp [infixes, ho]) fun v => by simp [hlength]
  | like ho => exact infix_woven hes hr (by simp [infixes, ho]) fun v => by simp [hlength]
  | chain ho hlong => exact infix_woven hes hr (by simp [infixes, ho]) fun v => by simpa [hlength] using hlong
  | range ho => exact range_woven hes hr ho hlength
  | @membership o a candidates ho _ hne =>
    have hlong (v : String) : 2 ≤ (es v).length := by
      simpa [hlength, Nat.one_le_iff_ne_zero] using hne
    have hcandidates (v : String) : (es v).tail.map Expr.isQuery = candidates.map Expr.isQuery := by
      simpa [List.map_tail] using congrArg List.tail (hqueries v)
    exact membership_woven hes hr ho hlong hcandidates
  | nullTest ho => exact nullTest_woven hes hr ho hlength
  | not => exact prefix_woven hes hr (by simp) hlength
  | sign => exact prefix_woven hes hr (by simp) hlength
  | «exists» => exact prefix_woven hes hr (by simp) hlength
  | list hlong =>
    refine (hes.join spells_commaSpace (by decide)).parens.congr fun v => ?_
    rw [Expr.render_operation, layout_list hr (by simpa [hlength] using hlong)]
  | quantifier ho => exact quantifier_woven hes hr ho hlength
  | call hname => exact call_woven hes hname

end

/-! ## Queries -/

theorem alias_trailing {a : Option String} (ha : IsAlias a) :
    Trailing 0 fun _ => QualifiedName.aliasText a := by
  cases a with
  | none => exact trailing_nil
  | some n =>
    have hname : Spells n [.name n] := (spells_name (ha n rfl)).weaken fun _ => Boundary.nameEnd
    exact trailing_const (SpellsBefore.space_before hname) (separate_append _ (by decide))

theorem item_alias {i : SelectItem Expr} (h : i.Form r) : IsAlias i.name.aliasName := by
  have haliased {i : SelectItem Expr} {a : Option String} (hi : i.name.aliasName = none)
      (ha : IsAlias a) : IsAlias (i.aliased a).name.aliasName := by
    cases a with
    | none =>
      change IsAlias i.name.aliasName
      rwa [hi]
    | some n => exact ha
  have hcolumn (t : String) : (SelectItem.column t).name.aliasName = none :=
    (QualifiedName.ofText_written t .column).2
  cases h with
  | all => exact (hcolumn "*").symm ▸ nofun
  | column _ ha => exact haliased (hcolumn _) ha
  | expression _ _ ha => exact haliased (SelectItem.aliasName_ofExpr r _) ha

theorem item_spells (hr : r.SparesOperators) {i : SelectItem Expr} (h : i.Form r)
    (he : ∀ e ∈ i.expression, e.Formed r) : ∃ ks, Spells (Expr.renderItem r i) ks := by
  obtain ⟨ks, hs, -⟩ := selectItem_restores h fun e hmem hplain =>
    restored_of_free hr ⟨he e hmem, hplain⟩
  exact ⟨ks, hs⟩

/-- An item shows its expression whatever its name. -/
theorem item_woven {n : Nat} {name : String → QualifiedName} {f : String → Expr}
    {function : String → Option String} {a : Option String} (hf : Woven n fun v => (f v).render r)
    (hcolumn : ∀ v, (f v).isColumn = false) (hname : ∀ v, (name v).aliasName = a) (ha : IsAlias a) :
    Woven n fun v => Expr.renderItem r ⟨name v, some (f v), function v⟩ := by
  refine (hf.append (alias_trailing ha)).congr fun v => ?_
  rw [Expr.renderItem, Expr.renderShown, hcolumn, hname]
  rfl

/-- A condition behind the word of its clause. -/
theorem clause_woven {word : String} {k : Kind} (hword : SpellsAlways word [k])
    (hstart : startsBoundary word = true) {n : Nat} {f : String → Expr}
    (hf : Woven n fun v => (f v).render r) :
    Trailing n fun v => Expr.renderClause r word (some (f v)) := by
  refine (hf.trailing hword hstart).congr fun v => ?_
  rw [Expr.renderClause]

theorem where_woven {n : Nat} {f : String → Expr} (hf : Woven n fun v => (f v).render r) :
    Trailing n fun v => Expr.renderClause r " where " (some (f v)) := by
  have hword : SpellsAlways " where " [.keyword .where] := spells_between ["where"] (by decide)
  exact clause_woven hword (by decide) hf

theorem having_woven {n : Nat} {f : String → Expr} (hf : Woven n fun v => (f v).render r) :
    Trailing n fun v => Expr.renderClause r " having " (some (f v)) := by
  have hword : SpellsAlways " having " [.keyword .having] := spells_between ["having"] (by decide)
  exact clause_woven hword (by decide) hf

/-- A clause whose condition is without gaps, or left out. -/
theorem clause_trailing (hr : r.SparesOperators) {word : String} {condition : Option Expr}
    (hwoven : ∀ e : Expr, (Woven 0 fun _ => e.render r) →
      Trailing 0 fun _ => Expr.renderClause r word (some e))
    (h : ∀ e ∈ condition, e.Formed r) : Trailing 0 fun _ => Expr.renderClause r word condition := by
  cases condition with
  | none =>
    rw [Expr.renderClause]
    exact trailing_nil
  | some e =>
    obtain ⟨ks, hs⟩ := formed_spells hr (h e rfl)
    exact hwoven e (woven_const hs)

theorem where_trailing (hr : r.SparesOperators) {condition : Option Expr}
    (h : ∀ e ∈ condition, e.Formed r) : Trailing 0 fun _ => Expr.renderClause r " where " condition :=
  clause_trailing hr (fun e => where_woven (f := fun _ => e)) h

theorem having_trailing (hr : r.SparesOperators) {having : Option Expr}
    (h : ∀ e ∈ having, e.Formed r) : Trailing 0 fun _ => Expr.renderClause r " having " having :=
  clause_trailing hr (fun e => having_woven (f := fun _ => e)) h

theorem group_woven {n m : Nat} {exprs : String → List Expr} {having : String → Option Expr}
    (hexprs : WovenList n fun v => (exprs v).map (Expr.render r))
    (hhaving : Trailing m fun v => Expr.renderClause r " having " (having v)) :
    Trailing (n + m) fun v => Expr.renderGroupClause r (some ⟨exprs v, having v⟩) := by
  have hwords : SpellsAlways " group by " [.keyword .group, .keyword .by] :=
    spells_between ["group", "by"] (by decide)
  have hspace : " group by " = " " ++ "group by " := by decide
  have hlist := (hexprs.join spells_commaSpace (by decide)).trailing hwords (by decide)
  refine (hlist.append hhaving).congr fun v => ?_
  rw [Expr.renderGroupClause, Expr.renderGroup, Expr.renderList_eq, hspace]
  simp only [String.append_assoc]

theorem set_woven {n : Nat} {o : String} (ho : o ∈ Operator.setOperators) {call : Bool}
    {f : String → Expr} (hf : Woven n fun v => (f v).render r) :
    Trailing n fun v => Expr.renderSetClause r (some ⟨o, [f v], call⟩) := by
  obtain ⟨k, ks, hs, -⟩ := setOperator_spelled ho
  refine (hf.trailing hs (starts_between o)).congr fun v => ?_
  rw [Expr.renderSetClause, Expr.renderList_eq, List.map_cons, List.map_nil]
  simp [String.join, String.append_assoc]

theorem order_woven {n : Nat} {ascending : Bool} {f : String → Expr}
    (hf : Woven n fun v => (f v).render r) :
    Woven n fun v => Expr.renderOrder r ⟨f v, ascending⟩ := by
  have hword : ∃ ks, Spells (OrderBy.direction ⟨Expr.null, ascending⟩) ks := by
    cases ascending with
    | true => exact ⟨[.keyword .asc], spells_words ["ASC"] (by decide)⟩
    | false => exact ⟨[.keyword .desc], spells_words ["DESC"] (by decide)⟩
  obtain ⟨ks, hs⟩ := hword
  have hdirection : Trailing 0 fun _ => " " ++ OrderBy.direction ⟨Expr.null, ascending⟩ :=
    trailing_const (SpellsBefore.space_before hs) (separate_append _ (by decide))
  refine (hf.append hdirection).congr fun v => ?_
  rw [Expr.renderOrder, String.append_assoc]
  rfl

/-- The text of an ORDER BY with the given entries behind what precedes it, or nothing. -/
def orderText (entries : List String) : String :=
  if entries.isEmpty then "" else " order by " ++ Text.join ", " entries

theorem orders_woven {n : Nat} {entries : String → List String} (h : WovenList n entries) :
    Trailing n fun v => orderText (entries v) := by
  have hwords : SpellsAlways " order by " [.keyword .order, .keyword .by] :=
    spells_between ["order", "by"] (by decide)
  have hjoin := (h.join spells_commaSpace (by decide)).trailing hwords (by decide)
  cases h with
  | nil => exact trailing_nil
  | cons => exact hjoin

/-- The text of a query has the gaps of its parts. -/
theorem query_woven {i w g o n : Nat} {distinct locked : Bool} {sources : List QualifiedName}
    {items : String → List (SelectItem Expr)} {condition : String → Option Expr}
    {group : String → Option (GroupBy Expr)} {set : String → Option (Operation Expr)}
    {order : String → List (OrderBy Expr)}
    (hitems : WovenList i fun v => (items v).map (Expr.renderItem r))
    (hsources : ∀ s ∈ sources, s.IsSource)
    (hcondition : Trailing w fun v => Expr.renderClause r " where " (condition v))
    (hgroup : Trailing g fun v => Expr.renderGroupClause r (group v))
    (hset : Trailing o fun v => Expr.renderSetClause r (set v))
    (horder : WovenList n fun v => (order v).map (Expr.renderOrder r)) :
    Woven (i + w + g + o + n) fun v => Query.render r
      ⟨distinct, items v, sources, condition v, group v, set v, order v, locked⟩ := by
  have hselect : SpellsAlways "select " [.keyword .select] :=
    Spells.space_after (s := "select") (spells_words ["select"] (by decide))
  have hdistinct : ∃ ks, SpellsAlways (if distinct then "distinct " else "") ks := by
    cases distinct with
    | true =>
      exact ⟨[.keyword .distinct],
        Spells.space_after (s := "distinct") (spells_words ["distinct"] (by decide))⟩
    | false => exact ⟨[], spells_nil⟩
  obtain ⟨ks, hdistinct⟩ := hdistinct
  have hfrom : SpellsAlways " from " [.keyword .from] := spells_between ["from"] (by decide)
  have htables : WovenList 0 fun _ => sources.map QualifiedName.render :=
    wovenList_const fun source hsource => by
      obtain ⟨ks, hs, -⟩ := source_restores (hsources source hsource)
      exact ⟨ks, hs⟩
  have hlocked : Trailing 0 fun _ => if locked then " for update" else "" := by
    obtain ⟨ks, hs, hseparate, -⟩ := forUpdate_continues locked
    exact trailing_const hs hseparate
  have hlist := (hitems.join spells_commaSpace (by decide)).behind (SpellsAlways.append hselect hdistinct)
  have htables := (htables.join spells_commaSpace (by decide)).trailing hfrom (by decide)
  have hend := (orders_woven horder).append hlocked
  have htext := ((((hlist.append htables).append hcondition).append hgroup).append hset).append hend
  refine htext.congr fun v => ?_
  rw [renderQuery_eq, renderItems_eq, renderOrders_eq, orderText, List.isEmpty_map]
  simp only [String.append_assoc]

/-- The parts of a query that has been read consist of whole tokens. -/
structure QuerySpelled (r : Registry) (q : Query Expr) : Prop where
  form : q.Form r
  items : ∀ i ∈ q.items, ∃ ks, Spells (Expr.renderItem r i) ks
  condition : Trailing 0 fun _ => Expr.renderClause r " where " q.condition
  group : Trailing 0 fun _ => Expr.renderGroupClause r q.groupBy
  set : Trailing 0 fun _ => Expr.renderSetClause r q.setOperation
  order : ∀ entry ∈ q.orderBy, ∃ ks, Spells (Expr.renderOrder r entry) ks

theorem part_formed {q : Query Expr} (h : (Expr.query q).Formed r) {e : Expr}
    (he : (∃ i ∈ q.items, e ∈ i.expression) ∨ e ∈ q.condition ∨
      (∃ g ∈ q.groupBy, e ∈ g.exprs ∨ e ∈ g.having) ∨ (∃ op ∈ q.setOperation, e ∈ op.operands) ∨
      ∃ entry ∈ q.orderBy, entry.expr = e) : e.Formed r := by
  cases h with
  | query _ hparts => exact hparts e (Query.mem_parts.mpr he)

theorem query_spelled (hr : r.SparesOperators) {q : Query Expr} (h : (Expr.query q).Formed r) :
    QuerySpelled r q := by
  have hform : q.Form r := by
    cases h with
    | query hform _ => exact hform
  constructor
  · exact hform
  · exact fun i hi => item_spells hr (hform.item i hi) fun e he => part_formed h (.inl ⟨i, hi, he⟩)
  · exact where_trailing hr fun e he => part_formed h (.inr (.inl he))
  · cases hg : q.groupBy with
    | none =>
      rw [Expr.renderGroupClause]
      exact trailing_nil
    | some g =>
      have hexprs : WovenList 0 fun _ => g.exprs.map (Expr.render r) := wovenList_const fun e he =>
        formed_spells hr (part_formed h (.inr (.inr (.inl ⟨g, hg, .inl he⟩))))
      have hhaving := having_trailing hr fun e (he : e ∈ g.having) =>
        part_formed h (.inr (.inr (.inl ⟨g, hg, .inr he⟩)))
      exact group_woven hexprs hhaving
  · cases hset : q.setOperation with
    | none =>
      rw [Expr.renderSetClause]
      exact trailing_nil
    | some op =>
      obtain ⟨o, ho, q', rfl⟩ := hform.set op hset
      obtain ⟨ks, hs⟩ := formed_spells hr
        (part_formed h (.inr (.inr (.inr (.inl ⟨_, hset, List.mem_singleton_self _⟩)))))
      exact set_woven ho (f := fun _ => .query q') (woven_const hs)
  · intro entry hentry
    obtain ⟨ks, hs⟩ := formed_spells hr
      (part_formed h (.inr (.inr (.inr (.inr ⟨entry, hentry, rfl⟩)))))
    have hwoven : Woven 0 fun _ => Expr.renderOrder r entry :=
      order_woven (f := fun _ => entry.expr) (woven_const hs)
    exact hwoven.spells ""

/-! ## Gaps -/

/-- The text of an expression, without the parentheses of a subquery. -/
def bareText (r : Registry) : Expr → String
  | .query q => q.render r
  | e => e.render r

theorem render_bareText (e : Expr) :
    e.render r = if e.isQuery then "(" ++ bareText r e ++ ")" else bareText r e := by
  cases e with
  | query q => exact Expr.render_query r q
  | constant | operation | placeholder => rfl

theorem gap_render {f : String → Expr} (h : Expr.Gap f) (hf : Woven 1 fun v => bareText r (f v)) :
    Woven 1 fun v => (f v).render r := by
  cases hquery : (f "").isQuery with
  | true => exact hf.parens.congr fun v => by rw [render_bareText, h.isQuery v "", hquery, if_pos rfl]
  | false => exact hf.congr fun v => by rw [render_bareText, h.isQuery v "", hquery]; rfl

/-- The text of an expression with a gap has just that gap, if the expression has been read with some
    value in it. -/
theorem gap_woven (hr : r.SparesOperators) {f : String → Expr} (h : Expr.Gap f) {u : String}
    (hf : (f u).Formed r) : Woven 1 fun v => bareText r (f v) := by
  -- From the literal outwards: what stands beside the gap has been read, so that it is whole tokens.
  induction h with
  | here => exact woven_string
  | @operand o before call after f hgap ih =>
    cases hf with
    | operation hform hoperands =>
      have hrender := gap_render hgap (ih (hoperands _ (by simp)))
      have hes : WovenList 1 fun v => (before ++ f v :: after).map (Expr.render r) :=
        hrender.among fun e he => formed_spells hr (hoperands e (by simpa using he.imp_right .inr))
      have hqueries (v : String) :
          (before ++ f v :: after).map Expr.isQuery = (before ++ f u :: after).map Expr.isQuery := by
        simp [hgap.isQuery v u]
      have hwoven := operation_woven hes hr hform hqueries
      exact hwoven
  | @item q before after a name f function hgap hname ih =>
    have hq := query_spelled hr hf
    have hmem : (⟨name u, some (f u), function u⟩ : SelectItem Expr) ∈
        before ++ ⟨name u, some (f u), function u⟩ :: after := by simp
    have hrender := gap_render hgap (ih (part_formed hf (.inl ⟨_, hmem, rfl⟩)))
    have hitem : Woven 1 fun v => Expr.renderItem r ⟨name v, some (f v), function v⟩ :=
      item_woven hrender hgap.not_column hname (hname u ▸ item_alias (hq.form.item _ hmem))
    exact query_woven (hitem.among fun i hi => hq.items i (by simpa using hi.imp_right .inr))
      hq.form.source hq.condition hq.group hq.set (wovenList_const hq.order)
  | @condition q f hgap ih =>
    have hq := query_spelled hr hf
    have hrender := gap_render hgap (ih (part_formed hf (.inr (.inl rfl))))
    exact query_woven (wovenList_const hq.items) hq.form.source (where_woven hrender) hq.group hq.set (wovenList_const hq.order)
  | @group q before after having f hgap ih =>
    have hq := query_spelled hr hf
    have hpart {e : Expr} (he : e ∈ before ++ f u :: after ∨ e ∈ having) : e.Formed r :=
      part_formed hf (.inr (.inr (.inl ⟨_, rfl, he⟩)))
    have hrender := gap_render hgap (ih (hpart (.inl (by simp))))
    have hexprs := hrender.among fun e (he : e ∈ before ∨ e ∈ after) =>
      formed_spells hr (hpart (.inl (by simpa using he.imp_right .inr)))
    exact query_woven (wovenList_const hq.items) hq.form.source hq.condition
      (group_woven hexprs (having_trailing hr fun e he => hpart (.inr he))) hq.set (wovenList_const hq.order)
  | @having q exprs f hgap ih =>
    have hq := query_spelled hr hf
    have hpart {e : Expr} (he : e ∈ exprs ∨ e ∈ some (f u)) : e.Formed r :=
      part_formed hf (.inr (.inr (.inl ⟨_, rfl, he⟩)))
    have hrender := gap_render hgap (ih (hpart (.inr rfl)))
    have hexprs : WovenList 0 fun _ => exprs.map (Expr.render r) :=
      wovenList_const fun e he => formed_spells hr (hpart (.inl he))
    exact query_woven (wovenList_const hq.items) hq.form.source hq.condition
      (group_woven hexprs (having_woven hrender)) hq.set (wovenList_const hq.order)
  | @set q o before after call f hgap ih =>
    have hq := query_spelled hr hf
    obtain ⟨o', ho, q', hop⟩ := hq.form.set _ rfl
    obtain ⟨rfl, hoperands, rfl⟩ := Operation.mk.inj hop
    obtain ⟨rfl, rfl⟩ : before = [] ∧ after = [] := by
      have hlength := congrArg List.length hoperands
      simp only [List.length_append, List.length_cons, List.length_nil] at hlength
      exact ⟨List.length_eq_zero_iff.mp (by omega), List.length_eq_zero_iff.mp (by omega)⟩
    have hrender := gap_render hgap (ih (part_formed hf (.inr (.inr (.inr (.inl ⟨_, rfl, by simp⟩))))))
    exact query_woven (wovenList_const hq.items) hq.form.source hq.condition hq.group
      (set_woven ho hrender) (wovenList_const hq.order)
  | @order q before ascending after f hgap ih =>
    have hq := query_spelled hr hf
    have hentry : (⟨f u, ascending⟩ : OrderBy Expr) ∈ before ++ ⟨f u, ascending⟩ :: after := by simp
    have hrender := gap_render hgap (ih (part_formed hf (.inr (.inr (.inr (.inr ⟨_, hentry, rfl⟩))))))
    exact query_woven (wovenList_const hq.items) hq.form.source hq.condition hq.group hq.set
      ((order_woven hrender).among fun entry he => hq.order entry (by simpa using he.imp_right .inr))

end Grammar

end SqlFront
