import SqlFront.Proofs.Canonical

/-! # Canonical texts of queries

Each clause of a query is read from what is written for it, given what can stand behind it. Main
statement: every expression and every query that keeps the invariant of trees is read from its
canonical text.
-/

namespace SqlFront

namespace Grammar

open Reading Token Kind

variable {r : Registry} {M N : Kind → Prop}

theorem optionalAlias_continues {a : Option String} (ha : IsAlias a)
    (hN : ∀ k, N k → M k ∧ k ≠ .keyword .as ∧ ∀ n, k ≠ .name n) (hM : ∀ n, M (.name n)) :
    Continues optionalAlias M N (QualifiedName.aliasText a) a := by
  cases a with
  | none =>
    exact continues_absent ((optionalAlias_reads .absent).weaken fun k hk => (hN k hk).2)
      fun k hk => (hN k hk).1
  | some n =>
    have hname : Spells n [.name n] := (spells_name (ha n rfl)).weaken fun _ => Boundary.nameEnd
    exact ⟨[.name n], SpellsBefore.space_before hname, separate_append _ (by decide), fun _ _ => hM n,
      (optionalAlias_reads (.present .bare)).weaken fun k hk => (hN k hk).2⟩

theorem renderItem_aliased {item : SelectItem Expr} (h : item.name.aliasName = none)
    (a : Option String) : Expr.renderItem r (item.aliased a) =
      Expr.renderShown r item.name.text item.expression ++ QualifiedName.aliasText a := by
  cases a with
  | none => rw [SelectItem.aliased, Expr.renderItem, h]
  | some n => rw [SelectItem.aliased, Expr.renderItem, SelectItem.withAlias, QualifiedName.withAlias]

/-- An item shows the text of its expression. -/
theorem renderShown_ofExpr (e : Expr) :
    Expr.renderShown r (SelectItem.ofExpr r e).name.text (SelectItem.ofExpr r e).expression =
      e.render r := by
  obtain ⟨hexpression, hcolumn⟩ | ⟨t, rfl, htext, hexpression⟩ := SelectItem.ofExpr_cases r e
  · rw [hexpression, Expr.renderShown, hcolumn, if_neg (by simp)]
  · rw [htext]
    obtain hexpression | hexpression := hexpression
    · rw [hexpression, Expr.renderShown]
      exact if_pos rfl
    · rw [hexpression, Expr.renderShown]
      rfl

theorem selectItem_starts {c d : Cursor} {item : SelectItem Expr}
    (h : selectItem r (readers r) c = (.ok item, d)) :
    c.current.kind = .symbol .star ∨ startsOperand c.current.kind = true := by
  obtain ⟨e, hm, -⟩ | ⟨-, h⟩ := acceptSymbol_ite.mp h
  · exact .inl hm.current_cons
  · obtain ⟨e, d, he, -⟩ := bind_ok.mp h
    rw [expression_readers] at he
    exact .inr (expression_starts he)

/-- No list of items starts with DISTINCT or ALL. -/
theorem selectItems_starts {c d : Cursor} {items : List (SelectItem Expr)}
    (h : commaList (selectItem r (readers r)) c = (.ok items, d)) :
    c.current.kind ≠ .keyword .distinct ∧ c.current.kind ≠ .keyword .all := by
  obtain ⟨_, _, hitem, -⟩ := bind_ok.mp h
  have hstarts := selectItem_starts hitem
  constructor <;> intro hk <;> rw [hk] at hstarts <;> exact absurd hstarts (by decide)

theorem distinct_reads {ks : List Kind} {d : Bool} (h : Rule.Distinct ks d) :
    Reads distinct (fun k => k ≠ .keyword .distinct ∧ k ≠ .keyword .all) ks d := by
  cases h with
  | distinct => exact reads_accept_then (reads_pure _) rfl
  | all => exact reads_accept_other (reads_discard_bind (reads_pure _) rfl) rfl
  | none =>
    exact reads_accept_else (reads_discard_skip (reads_pure false) fun k hk => by simpa using hk.2)
      fun k hk => by simpa using hk.1

theorem selectItem_restores_ofExpr {e : Expr} (he : Restored r e) {a : Option String}
    (ha : IsAlias a) :
    Restores (selectItem r (readers r)) (· ∈ [.symbol .comma, .keyword .from])
      (Expr.renderItem r ((SelectItem.ofExpr r e).aliased a)) ((SelectItem.ofExpr r e).aliased a) := by
  rw [renderItem_aliased (SelectItem.aliasName_ofExpr r e), renderShown_ofExpr]
  have hfollow : ∀ k ∈ [Kind.symbol .comma, .keyword .from],
      k.stops 0 = true ∧ k ≠ .keyword .as ∧ ∀ n, k ≠ .name n := by simp; decide
  obtain ⟨ks, hs, hread⟩ := he.expression 0
  obtain ⟨ks', hs', hseparate, hhead, halias⟩ := optionalAlias_continues (M := (·.stops 0 = true))
    ha hfollow fun _ => rfl
  refine ⟨ks ++ ks', hs.append hs' hseparate, fun c d hm hd => ?_⟩
  obtain ⟨f, hm, hm'⟩ := hm.split
  have he := hread hm (hm'.current ▸ hhead _ hd)
  have halias := halias hm' hd
  have hstar : c.current.kind ≠ .symbol .star := by
    intro hk
    rw [expression_readers] at he
    have hstarts := expression_starts he
    rw [hk] at hstarts
    cases hstarts
  refine acceptSymbol_ite.mpr (.inr ⟨hstar, ?_⟩)
  rw [bind_apply, he]
  dsimp only
  rw [bind_apply, halias]
  cases a <;> rfl

theorem selectItem_restores {item : SelectItem Expr} (h : item.Form r)
    (he : ∀ e ∈ item.expression, e.Plain → Restored r e) :
    Restores (selectItem r (readers r)) (· ∈ [.symbol .comma, .keyword .from])
      (Expr.renderItem r item) item := by
  cases h with
  | all => exact ⟨_, spells_star, reads_accept_then (reads_pure _) rfl⟩
  | column ht ha =>
    have hcolumn := constant_restored (r := r) (.column ht) (Expr.plain_constant fun heq => by
      obtain ⟨ks, hks, ht⟩ := ht
      exact ht.ne_star hks (Constant.mk.inj heq).2)
    exact selectItem_restores_ofExpr hcolumn ha
  | expression hcolumn hplain ha =>
    refine selectItem_restores_ofExpr (he _ ?_ hplain) ha
    rw [SelectItem.expression_aliased, SelectItem.expression_ofExpr hcolumn]
    rfl

/-! What can stand behind the parts of a query, from its end on. -/

/-- What ends a query. -/
def closers : List Kind := [.eof, .symbol .rightParen]

def behindOrder : List Kind := .keyword .for :: closers

def behindSet : List Kind := .keyword .order :: behindOrder

def behindGroup : List Kind :=
  .keyword .union :: .keyword .intersect :: .keyword .minus :: .keyword .except :: behindSet

def behindWhere : List Kind := .keyword .group :: behindGroup

def behindSources : List Kind := .keyword .where :: behindWhere

theorem source_restores {s : QualifiedName} (h : s.IsSource) :
    Restores source (· ∈ .symbol .comma :: behindSources) s.render s := by
  obtain @⟨t, a, ht, ha⟩ := h
  have hfollow : ∀ k ∈ .symbol .comma :: behindSources,
      k ≠ .symbol .dot ∧ k ≠ .keyword .as ∧ k.startsPrimary = false := by decide
  have hrender : ((QualifiedName.ofText t .table).aliased a).render =
      t ++ QualifiedName.aliasText a := by
    obtain ⟨htext, halias⟩ := QualifiedName.ofText_written t .table
    cases a with
    | none => rw [QualifiedName.aliased, QualifiedName.render, htext, halias]
    | some n => rw [QualifiedName.aliased, QualifiedName.render, QualifiedName.withAlias, htext]
  have halias : Continues optionalAlias (· ≠ .symbol .dot) (· ∈ .symbol .comma :: behindSources)
      (QualifiedName.aliasText a) a := by
    refine optionalAlias_continues ha (fun k hk => ?_) fun n => by simp
    obtain ⟨hdot, has, hname⟩ := hfollow k hk
    refine ⟨hdot, has, ?_⟩
    rintro n rfl
    cases hname
  rw [hrender]
  refine (dottedName_restores ht).bind ?_
  obtain ⟨ks, hs, hseparate, hhead, hread⟩ := halias
  refine ⟨ks, hs, hseparate, hhead, fun c d hm hd => ?_⟩
  rw [bind_apply, hread hm hd]
  cases a <;> rfl

/-- A condition behind its reserved word, or nothing. -/
theorem clause?_continues {word : Keyword} {s : String} {condition : Option Expr}
    (h : ∀ e ∈ condition, Restored r e) (hs : SpellsAlways s [.keyword word])
    (hM : M (.keyword word)) (hN : ∀ k, N k → M k ∧ k.stops 0 = true ∧ k ≠ .keyword word)
    (hstart : startsBoundary s = true := by decide) :
    Continues (clause? (readers r) word) M N (Expr.renderClause r s condition) condition := by
  cases condition with
  | none =>
    rw [Expr.renderClause]
    exact continues_absent (reads_accept_else (reads_pure _) fun k hk => by simpa using (hN k hk).2.2)
      fun k hk => (hN k hk).1
  | some e =>
    rw [Expr.renderClause]
    have he := ((h e rfl).expression 0).weaken fun k hk => (hN k hk).2.1
    exact he.behind_words hs hM (fun ks hks => reads_accept_then hks.map (by simp)) hstart

theorem expressions_restores_clause {es : List Expr} (hne : es ≠ []) (h : ∀ e ∈ es, Restored r e)
    (hN : ∀ k, N k → k.stops 0 = true ∧ k ≠ .symbol .comma) :
    Restores (expressions (readers r)) N (Text.join ", " (Expr.renderList r es)) es := by
  rw [Expr.renderList_eq]
  exact restores_commaList _ spells_commaSpace (by decide) (fun e he => (h e he).expression 0) hne rfl
    (fun k hk => (hN k hk).1) fun hcomma => (hN _ hcomma).2 rfl

theorem groupBy?_continues {group : Option (GroupBy Expr)}
    (h : ∀ g ∈ group, g.exprs ≠ [] ∧ (∀ e ∈ g.exprs, Restored r e) ∧ ∀ e ∈ g.having, Restored r e) :
    Continues (groupBy? (readers r)) (· ∈ behindWhere) (· ∈ behindGroup)
      (Expr.renderGroupClause r group) group := by
  have hfollow : ∀ k ∈ behindGroup, k ∈ behindWhere ∧ (k == .keyword .group) = false ∧
      k ∈ .keyword .having :: behindGroup ∧ k.stops 0 = true ∧ k ≠ .keyword .having := by decide
  have hlist : ∀ k ∈ .keyword .having :: behindGroup, k.stops 0 = true ∧ k ≠ .symbol .comma := by
    decide
  cases group with
  | none =>
    rw [Expr.renderGroupClause]
    exact continues_absent (reads_accept_else (reads_pure _) fun k hk => (hfollow k hk).2.1)
      fun k hk => (hfollow k hk).1
  | some g =>
    obtain ⟨exprs, having⟩ := g
    obtain ⟨hne, hexprs, hhaving⟩ := h _ rfl
    have hclause := clause?_continues (s := " having ") (M := (· ∈ .keyword .having :: behindGroup))
      hhaving (spells_between ["having"] (by decide)) (by decide) fun k hk => (hfollow k hk).2.2
    have hall := (expressions_restores_clause hne hexprs hlist).bind
      (f := fun exprs => clause? (readers r) .having >>= fun having => pure (some (⟨exprs, having⟩ : GroupBy Expr)))
      hclause.map
    have htext : Expr.renderGroupClause r (some ⟨exprs, having⟩) =
        " group by " ++ (Text.join ", " (Expr.renderList r exprs) ++
          Expr.renderClause r " having " having) := by
      have hwords : " group by " = " " ++ "group by " := by decide
      rw [Expr.renderGroupClause, Expr.renderGroup, hwords]
      simp only [String.append_assoc]
    have hwords : SpellsAlways " group by " [.keyword .group, .keyword .by] :=
      spells_between ["group", "by"] (by decide)
    rw [htext]
    exact hall.behind_words hwords (by decide)
      fun ks hks => reads_accept_then (reads_keyword_bind hks) rfl

theorem setOperator_spelled {o : String} (h : o ∈ Operator.setOperators) :
    ∃ k ks, SpellsAlways (" " ++ o ++ " ") (k :: ks) ∧ k ∈ behindGroup ∧
      Reads setOperator? (· = .symbol .leftParen) (k :: ks) (some o) := by
  simp only [Operator.setOperators, List.mem_cons, List.not_mem_nil, or_false] at h
  obtain rfl | rfl | rfl | rfl | rfl := h
  · refine ⟨.keyword .union, [], spells_between ["UNION"] (by decide), by decide, reads_kind_bind
      (reads_advance_bind (reads_accept_else (reads_pure _) ?_))⟩
    rintro _ rfl
    rfl
  · exact ⟨.keyword .union, [.keyword .all], spells_between ["UNION", "ALL"] (by decide), by decide,
      reads_kind_bind (reads_advance_bind (reads_accept_then (reads_pure _) rfl))⟩
  · exact ⟨.keyword .intersect, [], spells_between ["INTERSECT"] (by decide), by decide,
      reads_kind_bind (reads_advance_bind (reads_pure _))⟩
  · exact ⟨.keyword .minus, [], spells_between ["MINUS"] (by decide), by decide,
      reads_kind_bind (reads_advance_bind (reads_pure _))⟩
  · exact ⟨.keyword .except, [], spells_between ["EXCEPT"] (by decide), by decide,
      reads_kind_bind (reads_advance_bind (reads_pure _))⟩

theorem setOperator?_absent (hN : ∀ k, N k → k ≠ .keyword .union ∧ k ≠ .keyword .intersect ∧
    k ≠ .keyword .minus ∧ k ≠ .keyword .except) : Reads setOperator? N [] none := by
  intro c d hm hd
  obtain rfl := Cursor.moves_nil.mp hm
  obtain ⟨hunion, hintersect, hminus, hexcept⟩ := hN _ hd
  rw [setOperator?, kind_bind]
  split
  all_goals first
    | contradiction
    | rfl

theorem setOperation?_absent (hN : ∀ k, N k → k ≠ .keyword .union ∧ k ≠ .keyword .intersect ∧
    k ≠ .keyword .minus ∧ k ≠ .keyword .except) :
    Reads (setOperation? (readers r)) N [] none :=
  (setOperator?_absent hN).bind (reads_pure none) fun _ hk => hk

theorem setOperation?_continues {set : Option (Operation Expr)}
    (h : ∀ op ∈ set, ∃ o ∈ Operator.setOperators, ∃ q, op = ⟨o, [.query q], false⟩ ∧
      QueryRestored r q) :
    Continues (setOperation? (readers r)) (· ∈ behindGroup) (· ∈ behindSet)
      (Expr.renderSetClause r set) set := by
  have hfollow : ∀ k ∈ behindSet, k ∈ behindGroup ∧ k ≠ .keyword .union ∧ k ≠ .keyword .intersect ∧
      k ≠ .keyword .minus ∧ k ≠ .keyword .except := by decide
  cases set with
  | none =>
    rw [Expr.renderSetClause]
    exact continues_absent (setOperation?_absent fun k hk => (hfollow k hk).2) fun k hk => (hfollow k hk).1
  | some op =>
    obtain ⟨o, ho, q, rfl, hq⟩ := h _ rfl
    obtain ⟨k, ks, hs, hk, hoperator⟩ := setOperator_spelled ho
    obtain ⟨ks', hs', hread, -⟩ := hq.tokens
    have htext : Expr.renderSetClause r (some ⟨o, [.query q], false⟩) =
        " " ++ o ++ " " ++ ("(" ++ q.render r ++ ")") := by
      rw [Expr.renderSetClause, Expr.renderList_eq, List.map_cons, List.map_nil, Expr.render]
      simp [String.join, String.append_assoc]
    rw [htext]
    have hjoined : Reads (joinedQuery (readers r)) (fun _ => True)
        (.symbol .leftParen :: ks' ++ [.symbol .rightParen]) q :=
      reads_kind_bind (enclosedQuery_reads hread)
    refine ⟨k :: ks ++ (.symbol .leftParen :: ks' ++ [.symbol .rightParen]),
      SpellsAlways.append hs (hs'.parens.weaken fun _ _ => trivial), ?_, fun _ _ => hk, ?_⟩
    · simp only [String.append_assoc]
      exact separate_append _ (by decide)
    · exact (hoperator.bind (hjoined.weaken fun _ _ => trivial).map fun _ _ => rfl)

theorem orderEntry_restores {entry : OrderBy Expr} (h : Restored r entry.expr) :
    Restores (orderEntry (readers r)) N (Expr.renderOrder r entry) entry := by
  obtain ⟨e, ascending⟩ := entry
  obtain ⟨ks, hs, hread⟩ := h.expression 0
  rw [Expr.renderOrder, String.append_assoc]
  cases ascending with
  | true =>
    have hword : Spells "ASC" [.keyword .asc] := spells_words ["ASC"] (by decide)
    change Spells (OrderBy.direction ⟨e, true⟩) _ at hword
    exact ⟨ks ++ [.keyword .asc], hs.append (SpellsBefore.space_before hword) (separate_append _ (by decide)),
      hread.bind (reads_accept_else (reads_discard_bind (reads_pure _) rfl) fun _ _ => rfl)
        fun _ _ => rfl⟩
  | false =>
    have hword : Spells "DESC" [.keyword .desc] := spells_words ["DESC"] (by decide)
    change Spells (OrderBy.direction ⟨e, false⟩) _ at hword
    exact ⟨ks ++ [.keyword .desc], hs.append (SpellsBefore.space_before hword) (separate_append _ (by decide)),
      hread.bind (reads_accept_then (reads_pure _) rfl) fun _ _ => rfl⟩

theorem renderOrders_eq (order : List (OrderBy Expr)) :
    Expr.renderOrders r order = order.map (Expr.renderOrder r) := by
  induction order with
  | nil => rfl
  | cons entry rest ih => rw [Expr.renderOrders, ih, List.map_cons]

theorem renderItems_eq (items : List (SelectItem Expr)) :
    Expr.renderItems r items = items.map (Expr.renderItem r) := by
  induction items with
  | nil => rfl
  | cons item rest ih => rw [Expr.renderItems, ih, List.map_cons]

theorem orderBy_continues {order : List (OrderBy Expr)} (h : ∀ entry ∈ order, Restored r entry.expr) :
    Continues (orderBy (readers r)) (· ∈ behindSet) (· ∈ behindOrder)
      (if order.isEmpty then "" else " order by " ++ Text.join ", " (Expr.renderOrders r order))
      order := by
  have hfollow : ∀ k ∈ behindOrder, k ∈ behindSet ∧ (k == .keyword .order) = false := by decide
  by_cases hne : order = []
  · subst hne
    exact continues_absent (reads_accept_else (reads_pure _) fun k hk => (hfollow k hk).2)
      fun k hk => (hfollow k hk).1
  · rw [if_neg (by simpa using hne), renderOrders_eq]
    have hlist : Restores (commaList (orderEntry (readers r))) (· ∈ behindOrder)
        (Text.join ", " (order.map (Expr.renderOrder r))) order :=
      restores_commaList (M := fun _ => True) _ spells_commaSpace (by decide)
        (fun entry hentry => orderEntry_restores (h entry hentry)) hne trivial
        (fun _ _ => trivial) (by decide)
    have hwords : SpellsAlways " order by " [.keyword .order, .keyword .by] :=
      spells_between ["order", "by"] (by decide)
    exact hlist.behind_words hwords (by decide)
      fun ks hks => reads_accept_then (reads_keyword_bind hks) rfl

theorem forUpdate_continues (locked : Bool) :
    Continues forUpdate (· ∈ behindOrder) (· ∈ closers) (if locked then " for update" else "")
      locked := by
  cases locked with
  | true =>
    have hwords : Spells "for update" [.keyword .for, .keyword .update] :=
      spells_words ["for", "update"] (by decide)
    have hspaced : Spells " for update" [.keyword .for, .keyword .update] :=
      (by decide : " for update" = " " ++ "for update") ▸ SpellsBefore.space_before hwords
    exact ⟨_, hspaced, fun rest _ => boundary_of_starts (by decide) rest,
      fun _ _ => List.mem_cons_self .., reads_accept_then (reads_keyword_bind (reads_pure _)) rfl⟩
  | false =>
    have hfollow : ∀ k ∈ closers, k ∈ behindOrder ∧ (k == .keyword .for) = false := by decide
    exact continues_absent (reads_accept_else (reads_pure _) fun k hk => (hfollow k hk).2)
      fun k hk => (hfollow k hk).1

theorem renderQuery_eq (q : Query Expr) : q.render r =
    "select " ++ (if q.distinct then "distinct " else "") ++
      Text.join ", " (Expr.renderItems r q.items) ++ " from " ++
      Text.join ", " (q.sources.map QualifiedName.render) ++
      Expr.renderClause r " where " q.condition ++ Expr.renderGroupClause r q.groupBy ++
      Expr.renderSetClause r q.setOperation ++
      (if q.orderBy.isEmpty then "" else
        " order by " ++ Text.join ", " (Expr.renderOrders r q.orderBy)) ++
      (if q.forUpdate then " for update" else "") := by
  cases q
  rfl

theorem query_restored {q : Query Expr} (h : q.Form r)
    (hitem : ∀ i ∈ q.items, ∀ e ∈ i.expression, e.Plain → Restored r e)
    (hcondition : ∀ e ∈ q.condition, Restored r e)
    (hgroup : ∀ g ∈ q.groupBy, (∀ e ∈ g.exprs, Restored r e) ∧ ∀ e ∈ g.having, Restored r e)
    (hset : ∀ op ∈ q.setOperation, ∃ o ∈ Operator.setOperators, ∃ q', op = ⟨o, [.query q'], false⟩ ∧
      QueryRestored r q')
    (horder : ∀ entry ∈ q.orderBy, Restored r entry.expr) : QueryRestored r q := by
  obtain ⟨d, items, sources, condition, group, set, order, locked⟩ := q
  have hitems : Restores (commaList (selectItem r (readers r))) (· = .keyword .from)
      (Text.join ", " (Expr.renderItems r items)) items := by
    rw [renderItems_eq]
    exact restores_commaList _ spells_commaSpace (by decide)
      (fun i hi => selectItem_restores (h.item i hi) (hitem i hi)) h.items (by simp)
      (by simp) (by simp)
  have hsources : Restores (commaList source) (· ∈ behindSources)
      (Text.join ", " (sources.map QualifiedName.render)) sources :=
    restores_commaList _ spells_commaSpace (by decide) (fun s hs => source_restores (h.source s hs))
      h.sources (by simp) (fun k hk => List.mem_cons_of_mem _ hk) (by decide)
  have hwords : SpellsAlways " where " [.keyword .where] := spells_between ["where"] (by decide)
  have hwhere := clause?_continues (M := (· ∈ behindSources)) (N := (· ∈ behindWhere)) hcondition
    hwords (by decide) (by decide)
  have hgroup := groupBy?_continues fun g (hg : g ∈ group) =>
    ⟨(h.group g hg).1, (hgroup g hg).1, (hgroup g hg).2⟩
  have hset := setOperation?_continues hset
  have horder := orderBy_continues horder
  have hlocked := forUpdate_continues locked
  have hfrom : SpellsAlways " from " [.keyword .from] := spells_between ["from"] (by decide)
  have hselect : SpellsAlways "select " [.keyword .select] :=
    Spells.space_after (s := "select") (spells_words ["select"] (by decide))
  have hrest : Restores (do
      let items ← commaList (selectItem r (readers r))
      keyword .from
      let sources ← commaList source
      let condition ← clause? (readers r) .where
      let group ← groupBy? (readers r)
      let set ← setOperation? (readers r)
      let order ← orderBy (readers r)
      let locked ← forUpdate
      return (⟨d, items, sources, condition, group, set, order, locked⟩ : Query Expr)) (· ∈ closers) _
      (⟨d, items, sources, condition, group, set, order, locked⟩ : Query Expr) :=
    hitems.bind (Restores.behind_words (M := (· = .keyword .from))
      (hsources.bind (hwhere.bind (hgroup.bind (hset.bind (horder.bind hlocked.map))))) hfrom rfl
      fun ks hks => reads_keyword_bind hks)
  obtain ⟨ks, hs, hread⟩ := hrest
  rw [QueryRestored, query_readers]
  rw [renderQuery_eq]
  simp only [String.append_assoc]
  have hhead : ∀ k ∈ closers, ks.headD k ≠ .keyword .distinct ∧ ks.headD k ≠ .keyword .all := by
    intro k hk
    obtain ⟨c, e, hc, hkind⟩ := hread.exists hk
    obtain ⟨_, _, hlist, -⟩ := bind_ok.mp hc
    exact hkind ▸ selectItems_starts hlist
  cases d with
  | true =>
    have hdistinct : SpellsAlways "distinct " [.keyword .distinct] :=
      Spells.space_after (s := "distinct") (spells_words ["distinct"] (by decide))
    exact ⟨.keyword .select :: .keyword .distinct :: ks,
      SpellsAlways.append hselect (SpellsAlways.append hdistinct hs),
      reads_keyword_bind ((distinct_reads .distinct).bind hread hhead)⟩
  | false =>
    refine ⟨.keyword .select :: ks, ?_, reads_keyword_bind ((distinct_reads .none).bind hread hhead)⟩
    rw [if_neg (by simp), String.empty_append]
    exact SpellsAlways.append hselect hs

/-- What the canonical text of an expression is read as, according to where the expression may
    stand. -/
structure Canonical (r : Registry) (e : Expr) : Prop where
  plain : e.Plain → Restored r e
  query : ∀ q, e = .query q → QueryRestored r q
  quantified : ∀ o ∈ Operator.quantifiers, ∀ q, e = .unary o (.query q) → QueryRestored r q

theorem operation_restored (hr : r.SparesOperators) {op : Operation Expr} (hform : op.Form r)
    (hplain : (Expr.operation op).Plain) (h : ∀ e ∈ op.operands, Canonical r e) :
    Restored r (.operation op) := by
  rw [Restored, Expr.render_operation]
  cases hform with
  | @comparison o a b ho ha hb =>
    have hinfix : o ∈ infixes := by simp [infixes, ho]
    have hleft := (h a (by simp)).plain ha
    rw [layout_chained hr hinfix (by simp), List.map_cons, List.map_cons, List.map_nil, join_pair]
    refine restores_group (restores_comparison ho hleft fun power => ?_)
    obtain hb | ⟨o', ho', q, rfl⟩ := hb
    · exact comparand_restores ((h b (by simp)).plain hb) power
    · have hq := (h (.unary o' (.query q)) (by simp)).quantified o' ho' q rfl
      rw [Expr.unary, Expr.render_operation]
      simp only [List.map_cons, List.map_nil, layout_quantifier hr ho']
      exact comparand_restores_quantified ho' hq power
  | @like o a b ho ha hb =>
    have hinfix : o ∈ infixes := by simp [infixes, ho]
    rw [layout_chained hr hinfix (by simp), List.map_cons, List.map_cons, List.map_nil, join_pair]
    exact restores_group (restores_like ho ((h a (by simp)).plain ha) ((h b (by simp)).plain hb))
  | @range o a b c ho ha hb hc =>
    rw [List.map_cons, List.map_cons, List.map_cons, List.map_nil, layout_range hr ho]
    exact restores_group (restores_range ho ((h a (by simp)).plain ha) ((h b (by simp)).plain hb)
      ((h c (by simp)).plain hc))
  | @membership o a es ho ha hne hes =>
    rw [List.map_cons, layout_membership hr ho hne]
    exact restores_group (restores_membership ho ((h a (by simp)).plain ha) hne
      (fun e he => (h e (by simp [he])).plain (hes e he))
      fun q hq => (h (.query q) (by simp [hq])).query q rfl)
  | @nullTest o a ho ha =>
    rw [List.map_cons, List.map_nil, layout_after hr ho]
    exact restores_group (restores_nullTest ho ((h a (by simp)).plain ha))
  | @not a ha =>
    rw [List.map_cons, List.map_nil, layout_before hr (by simp)]
    exact restores_group (restores_not ((h a (by simp)).plain ha))
  | @sign a ha =>
    rw [List.map_cons, List.map_nil, layout_before hr (by simp)]
    exact restores_group (restores_sign ((h a (by simp)).plain ha))
  | @chain o es ho hlength hes =>
    have hinfix : o ∈ infixes := by simp [infixes, ho]
    rw [layout_chained hr hinfix hlength]
    exact restores_group (restores_chain ho hlength fun e he => (h e he).plain (hes e he))
  | @list es hlength hes =>
    have hne : es ≠ [] := by
      rintro rfl
      simp at hlength
    rw [layout_list hr hlength]
    exact restores_enclosed hne (fun e he => ((h e he).plain (hes e he)).operand 0)
      (.inr ⟨hlength, rfl⟩)
  | @«exists» q =>
    rw [List.map_cons, List.map_nil, layout_before hr (by simp)]
    exact restores_group (restores_exists ((h (.query q) (by simp)).query q rfl))
  | quantifier ho => exact absurd ho (hplain.2 _ rfl)
  | @call name arity args hname harity haccepts hargs =>
    have hcall := call_restored hname harity haccepts fun e he =>
      (hargs e he).imp (h e he).plain id
    rwa [Restored, Expr.render_operation] at hcall

theorem canonical_of_formed (hr : r.SparesOperators) {e : Expr} (h : e.Formed r) : Canonical r e := by
  induction h with
  | @constant c h =>
    exact ⟨constant_restored h, nofun, nofun⟩
  | @operation op hform _ ih =>
    refine ⟨fun hplain => operation_restored hr hform hplain ih, nofun, ?_⟩
    rintro o ho q ⟨⟩
    exact (ih (.query q) (by simp)).query q rfl
  | @query q hform _ ih =>
    have hpart (e : Expr) (he : e ∈ q.parts) (hplain : e.Plain) : Restored r e := (ih e he).plain hplain
    have hq : QueryRestored r q := by
      refine query_restored hform ?_ ?_ ?_ ?_ ?_
      · exact fun i hi e he hplain => hpart e (Query.mem_parts.mpr (.inl ⟨i, hi, he⟩)) hplain
      · exact fun e he => hpart e (Query.mem_parts.mpr (.inr (.inl he))) (hform.condition e he)
      · intro g hg
        obtain ⟨-, hexprs, hhaving⟩ := hform.group g hg
        refine ⟨fun e he => hpart e ?_ (hexprs e he), fun e he => hpart e ?_ (hhaving e he)⟩
        · exact Query.mem_parts.mpr (.inr (.inr (.inl ⟨g, hg, .inl he⟩)))
        · exact Query.mem_parts.mpr (.inr (.inr (.inl ⟨g, hg, .inr he⟩)))
      · intro op hop
        obtain ⟨o, ho, q', rfl⟩ := hform.set op hop
        have hmem := Query.mem_parts.mpr (.inr (.inr (.inr (.inl ⟨_, hop, List.mem_singleton_self _⟩))))
        exact ⟨o, ho, q', rfl, (ih (.query q') hmem).query q' rfl⟩
      · intro entry hentry
        exact hpart _ (Query.mem_parts.mpr (.inr (.inr (.inr (.inr ⟨entry, hentry, rfl⟩)))))
          (hform.order entry hentry)
    refine ⟨fun _ => hq.restored, ?_, nofun⟩
    rintro q ⟨⟩
    exact hq
  | placeholder => exact ⟨fun _ => placeholder_restored, nofun, nofun⟩

/-- An expression that is read is read again from its canonical text. -/
theorem restored_of_free (hr : r.SparesOperators) {e : Expr} (h : e.Free r) : Restored r e :=
  (canonical_of_formed hr h.1).plain h.2

theorem queryRestored_of_formed (hr : r.SparesOperators) {q : Query Expr}
    (h : (Expr.query q).Formed r) : QueryRestored r q :=
  (canonical_of_formed hr h).query q rfl

end Grammar

end SqlFront
