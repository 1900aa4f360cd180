import SqlFront.Proofs.Gaps

/-! # String literals stay between their quotes

In the text of a statement that has been read, any string literal may be replaced by any other one.
Main statement: the tokens of the text stay as they are, but for the one of that literal, whatever
quotes, comment signs, semicolons or line ends the new literal has in it.
-/

namespace SqlFront

/-- The places in a statement where a string literal stands, its comment included. -/
inductive Statement.Gap : (String → Statement) → Prop
  | query {q : String → Query Expr} : (Expr.Gap fun v => .query (q v)) → Gap fun v => .query (q v)
  | value {table columns before after} {f : String → Expr} : Expr.Gap f →
      Gap fun v => .insert ⟨table, columns, .list (before ++ f v :: after)⟩
  | rows {table columns} {q : String → Query Expr} : (Expr.Gap fun v => .query (q v)) →
      Gap fun v => .insert ⟨table, columns, .query (q v)⟩
  | assignment {table aliasName before column after condition} {f : String → Expr} : Expr.Gap f →
      Gap fun v => .update ⟨table, aliasName, before ++ (column, f v) :: after, condition⟩
  | updateWhere {table aliasName assignments} {f : String → Expr} : Expr.Gap f →
      Gap fun v => .update ⟨table, aliasName, assignments, some (f v)⟩
  | deleteWhere {table} {f : String → Expr} : Expr.Gap f → Gap fun v => .delete ⟨table, some (f v)⟩
  | comment {t : Transaction} : Gap fun v => .transaction { t with comment := some v }

namespace Grammar

open Token Kind

variable {r : Registry} {m n : Nat} {table column : String}

theorem dotted_spells (h : IsDotted table) : ∃ ks, Spells table ks := by
  obtain ⟨ks, hs, -⟩ := dottedName_restores h
  exact ⟨ks, hs⟩

/-! ## INSERT -/

theorem insert_woven {columns : Option (List String)} {rows : String → InsertSource}
    (htable : IsDotted table) (hcolumns : ∀ cs ∈ columns, cs ≠ [] ∧ ∀ c ∈ cs, IsDotted c)
    (hrows : Trailing n fun v => (rows v).render r) :
    Woven n fun v => Insert.render r ⟨table, columns, rows v⟩ := by
  have hinto : SpellsAlways "insert into " [.keyword .insert, .keyword .into] :=
    Spells.space_after (s := "insert into") (spells_words ["insert", "into"] (by decide))
  obtain ⟨ks, hs⟩ := dotted_spells htable
  obtain ⟨ks', hs', hseparate, -⟩ := insertColumns?_continues hcolumns
  refine ((hrows.after (hs.append hs' hseparate)).behind hinto).congr fun v => ?_
  simp only [Insert.render, String.append_assoc]

theorem values_woven {es : String → List Expr} (h : WovenList n fun v => (es v).map (Expr.render r)) :
    Trailing n fun v => InsertSource.render r (.list (es v)) := by
  have hvalues : SpellsAlways " values " [.keyword .values] := spells_between ["values"] (by decide)
  have hwords : " values (" = " values " ++ "(" := by decide
  refine ((h.join spells_commaSpace (by decide)).parens.trailing hvalues (by decide)).congr fun v => ?_
  rw [InsertSource.render, hwords]
  simp only [String.append_assoc]

theorem rows_woven {q : String → Query Expr} (h : Woven n fun v => (q v).render r) :
    Trailing n fun v => InsertSource.render r (.query (q v)) :=
  h.trailing spells_space (by decide)

/-! ## UPDATE and DELETE -/

theorem assignment_woven (hcolumn : IsDotted column) {f : String → Expr}
    (hf : Woven n fun v => (f v).render r) : Woven n fun v => Update.renderAssignment r (column, f v) := by
  obtain ⟨ks, hs⟩ := dotted_spells hcolumn
  refine ((hf.trailing spells_equal (by decide)).after hs).congr fun v => ?_
  rw [Update.renderAssignment, String.append_assoc]

theorem update_woven {a : Option String} {assignments : String → List (String × Expr)}
    {condition : String → Option Expr} (htable : IsDotted table) (ha : IsAlias a)
    (hassignments : WovenList n fun v => (assignments v).map (Update.renderAssignment r))
    (hcondition : Trailing m fun v => Expr.renderClause r " where " (condition v)) :
    Woven (n + m) fun v => Update.render r ⟨table, a, assignments v, condition v⟩ := by
  have hupdate : SpellsAlways "update " [.keyword .update] :=
    Spells.space_after (s := "update") (spells_words ["update"] (by decide))
  have hset : SpellsAlways " set " [.keyword .set] := spells_between ["set"] (by decide)
  obtain ⟨ks, hs⟩ := dotted_spells htable
  obtain ⟨ks', hs', hseparate, -⟩ := name?_continues ha
  have hlist := (hassignments.join spells_commaSpace (by decide)).trailing hset (by decide)
  refine (((hlist.append hcondition).after (hs.append hs' hseparate)).behind hupdate).congr fun v => ?_
  simp only [Update.render, String.append_assoc]

theorem delete_woven {condition : String → Option Expr} (htable : IsDotted table)
    (hcondition : Trailing n fun v => Expr.renderClause r " where " (condition v)) :
    Woven n fun v => Delete.render r ⟨table, condition v⟩ := by
  have hdelete : SpellsAlways "delete from " [.keyword .delete, .keyword .from] :=
    Spells.space_after (s := "delete from") (spells_words ["delete", "from"] (by decide))
  obtain ⟨ks, hs⟩ := dotted_spells htable
  refine ((hcondition.after hs).behind hdelete).congr fun v => ?_
  simp only [Delete.render, String.append_assoc]

/-! ## Transactions -/

/-- Only the words that end a transaction take a comment. -/
theorem commented_ends {t : Transaction} {u : String} (h : { t with comment := some u }.Form) :
    t.statement = Transaction.commit.statement ∨ t.statement = Transaction.rollback.statement := by
  generalize ht : { t with comment := some u } = t' at h
  cases h with
  | commit => exact .inl (Transaction.mk.inj ht).1
  | rollback => exact .inr (Transaction.mk.inj ht).1
  | set => cases (Transaction.mk.inj ht).2.1

theorem transaction_woven {t : Transaction} {u : String} (h : { t with comment := some u }.Form) :
    Woven 1 fun v => Transaction.render { t with comment := some v } := by
  have hcomment : Trailing 1 fun v => Transaction.renderComment (some v) := by
    have hword : SpellsAlways " comment " [.name "comment"] := spells_between ["comment"] (by decide)
    exact woven_string.trailing hword (by decide)
  have hending {o w : String} (ho : t.statement = o) (hw : Spells w [.name w])
      (hlower : Text.lower o = w) (hset : o ≠ Transaction.setWords) :
      Woven 1 fun v => Transaction.render { t with comment := some v } := by
    refine (hcomment.after hw).congr fun v => ?_
    simp [Transaction.render, ho, hlower, hset]
  have hcommit : Spells "commit" [.name "commit"] := spells_words ["commit"] (by decide)
  have hrollback : Spells "rollback" [.name "rollback"] := spells_words ["rollback"] (by decide)
  obtain ho | ho := commented_ends h
  · exact hending ho hcommit (by decide) (by decide)
  · exact hending ho hrollback (by decide) (by decide)

/-! ## Every statement -/

theorem statement_woven (hr : r.SparesOperators) {C : String → Statement} (hC : Statement.Gap C)
    {u : String} (h : (C u).Formed r) : Woven 1 fun v => (C v).render r := by
  cases hC with
  | query hgap =>
    cases h with
    | query hq => exact gap_woven hr hgap hq
  | @value table columns before after f hgap =>
    cases h with
    | insert htable hcolumns hrows =>
      cases hrows with
      | list _ hes =>
        have hrender := gap_render hgap (gap_woven hr hgap (hes (f u) (by simp)).1)
        have hvalues := hrender.among fun e (he : e ∈ before ∨ e ∈ after) =>
          formed_spells hr (hes e (by simpa using he.imp_right .inr)).1
        exact insert_woven htable hcolumns (values_woven hvalues)
  | rows hgap =>
    cases h with
    | insert htable hcolumns hrows =>
      cases hrows with
      | query hq => exact insert_woven htable hcolumns (rows_woven (gap_woven hr hgap hq))
  | @assignment table aliasName before column after condition f hgap =>
    cases h with
    | update htable ha _ _ hassignments hcondition =>
      obtain ⟨hcolumn, hf⟩ := hassignments (column, f u) (by simp)
      have hset := (assignment_woven hcolumn (gap_render hgap (gap_woven hr hgap hf.1))).among
        fun a (ha : a ∈ before ∨ a ∈ after) => by
          obtain ⟨hcolumn, he⟩ := hassignments a (by simpa using ha.imp_right .inr)
          obtain ⟨ks, hs, -⟩ := assignment_restores hr hcolumn he
          exact ⟨ks, hs⟩
      exact update_woven htable ha hset (where_trailing hr fun e he => (hcondition e he).1)
  | @updateWhere table aliasName assignments f hgap =>
    cases h with
    | update htable ha _ _ hassignments hcondition =>
      have hrender := gap_render hgap (gap_woven hr hgap (hcondition (f u) rfl).1)
      have hset : WovenList 0 fun _ => assignments.map (Update.renderAssignment r) :=
        wovenList_const fun a ha => by
          obtain ⟨ks, hs, -⟩ := assignment_restores hr (hassignments a ha).1 (hassignments a ha).2
          exact ⟨ks, hs⟩
      exact update_woven htable ha hset (where_woven hrender)
  | @deleteWhere table f hgap =>
    cases h with
    | delete htable hcondition =>
      have hrender := gap_render hgap (gap_woven hr hgap (hcondition (f u) rfl).1)
      exact delete_woven htable (where_woven hrender)
  | comment =>
    cases h with
    | transaction ht => exact transaction_woven ht

end Grammar

/-- A string literal cannot leave its quotes: put any other text in the place of a literal of a statement
    that has been read. The tokens before and behind it in the text of the statement stay the same, and
    between them stands the new literal. -/
theorem strings_stay_quoted (r : Registry) (hr : r.SparesOperators) (text : String) (c d : Cursor)
    (hc : (Cursor.ofText text).Reaches c) (C : String → Statement) (hC : Statement.Gap C) (u : String)
    (h : Grammar.statement? r c = (.ok (some (C u)), d)) :
    ∃ ks ks', ∀ v, (Token.tokenize ((C v).render r)).map (·.kind) = ks ++ .string v :: ks' := by
  obtain ⟨template, hcount, hspells⟩ :=
    Grammar.statement_woven hr hC (Grammar.statement?_formed hc h)
  obtain ⟨ks, ks', hall⟩ := Token.Template.around hcount
  refine ⟨ks, ks' ++ [.eof], fun v => ?_⟩
  rw [Token.kinds_tokenize (hspells v).lexes, hall, List.append_assoc, List.cons_append]

theorem strings_stay_quoted_subquery :
    ∃ C : String → Statement, (∃ d, Grammar.statement? Registry.builtin
        (Cursor.ofText "delete from t where a in (select b from u where c=\x27x\x27)") =
          (.ok (some (C "x")), d)) ∧
      ∃ ks ks', ∀ v, (Token.tokenize ((C v).render Registry.builtin)).map (·.kind) =
        ks ++ .string v :: ks' := by
  have hspares : Registry.builtin.SparesOperators := by
    unfold Registry.SparesOperators
    decide
  let q : Query Expr :=
    ⟨false, [.column "b"], [.ofText "u" .table], none, none, none, [], false⟩
  let C (v : String) : Statement := .delete ⟨"t", some (.applied "IN" [.column "a",
    .query { q with condition := some (.applied "=" [.column "c", .string v]) }])⟩
  have hsubquery : Expr.Gap fun v =>
      .query { q with condition := some (.applied "=" [.column "c", .string v]) } :=
    .condition (@Expr.Gap.operand _ [.column "c"] _ [] _ .here)
  have hC : Statement.Gap C := .deleteWhere (@Expr.Gap.operand _ [.column "a"] _ [] _ hsubquery)
  have hread : (Grammar.statement? Registry.builtin (Cursor.ofText
      "delete from t where a in (select b from u where c=\x27x\x27)")).1.toOption = some (some (C "x")) := by
    decide +kernel
  obtain ⟨d, hread⟩ : ∃ d, Grammar.statement? Registry.builtin (Cursor.ofText
      "delete from t where a in (select b from u where c=\x27x\x27)") = (.ok (some (C "x")), d) :=
    ⟨_, Prod.ext (ok_of_toOption hread) rfl⟩
  exact ⟨C, ⟨d, hread⟩, strings_stay_quoted _ hspares _ _ _ (.refl _) C hC "x" hread⟩

end SqlFront
