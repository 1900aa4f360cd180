import SqlFront.Proofs.Clauses
import SqlFront.Proofs.Statements
import SqlFront.Render.Statement

/-! # Canonical texts of statements

Main statement: what is written for a statement or a condition that has been read is read as the same
statement or condition, and nothing follows it.
-/

namespace SqlFront

namespace Grammar

open Reading Token Kind

variable {r : Registry} {ks : List Kind} {M N : Kind → Prop}

/-! ## INSERT, UPDATE and DELETE -/

/-- What can stand behind the columns of an INSERT. -/
def behindColumns : List Kind := [.keyword .values, .keyword .select]

theorem insertColumns?_reads {columns : List String}
    (h : Reads (commaList dottedName) (· = .symbol .rightParen) ks columns) :
    Reads insertColumns? N (.symbol .leftParen :: ks ++ [.symbol .rightParen]) (some columns) := by
  have hselect : ks.headD (.symbol .rightParen) ≠ .keyword .select := by
    obtain ⟨c, d, hc, hkind⟩ := h.exists rfl
    obtain ⟨_, _, hname, -⟩ := bind_ok.mp hc
    obtain ⟨_, _, hname, -⟩ := bind_ok.mp hname
    rw [← hkind, (name_ok.mp hname).current_cons]
    simp
  intro c d hm hd
  obtain ⟨e, hfirst, hrest⟩ := Cursor.Moves.cons hm
  have hnext : c.advance.current.kind = ks.headD (.symbol .rightParen) := by
    rw [hfirst.advance, hrest.current]
    cases ks <;> rfl
  rw [insertColumns?, kind_bind, if_pos hm.current_cons, nextKind_bind, hnext, if_neg hselect,
    advance_bind, hfirst.advance]
  exact (h.bind (f := fun columns => do
    symbol .rightParen
    return some columns) (reads_symbol_bind (reads_pure _)) fun _ _ => rfl) hrest hd

theorem insertColumns?_continues {columns : Option (List String)}
    (h : ∀ cs ∈ columns, cs ≠ [] ∧ ∀ c ∈ cs, IsDotted c) :
    Continues insertColumns? (· ≠ .symbol .dot) (· ∈ behindColumns)
      (Insert.renderColumns columns) columns := by
  have hfollow : ∀ k ∈ behindColumns, k ≠ .symbol .dot ∧ k ≠ .symbol .leftParen := by decide
  cases columns with
  | none =>
    refine continues_absent (fun c d hm hd => ?_) fun k hk => (hfollow k hk).1
    obtain rfl := Cursor.moves_nil.mp hm
    rw [insertColumns?, kind_bind, if_neg (hfollow _ hd).2]
    rfl
  | some columns =>
    obtain ⟨hne, hdotted⟩ := h columns rfl
    have hlist := restores_commaList (N := (· = .symbol .rightParen)) id spells_comma (by decide)
      (fun c hc => dottedName_restores (hdotted c hc)) hne (by simp) (by rintro _ rfl; simp) (by simp)
    obtain ⟨ks, hs, hread⟩ := hlist
    have htext : Insert.renderColumns (some columns) =
        "(" ++ Text.join "," (columns.map id) ++ ")" := by
      rw [List.map_id]
      cases columns with
      | nil => exact absurd rfl hne
      | cons => rfl
    rw [htext]
    refine ⟨_, hs.parens.weaken fun _ _ => trivial, ?_, fun _ _ => by simp, insertColumns?_reads hread⟩
    rw [String.append_assoc]
    exact separate_append _ (by decide)

theorem insertSource_continues (hr : r.SparesOperators) {rows : InsertSource}
    (h : rows.Formed r) :
    Continues (insertSource r) (· ∈ behindColumns) (· = .eof) (rows.render r) rows := by
  cases h with
  | @list es hne hes =>
    obtain ⟨ks, hs, hread⟩ := restores_expressions hne fun e he =>
      (restored_of_free hr (hes e he)).operand 0
    have hvalues : SpellsAlways " values " [.keyword .values] := spells_between ["values"] (by decide)
    have htext : InsertSource.render r (.list es) =
        " values " ++ ("(" ++ Text.join ", " (es.map (Expr.render r)) ++ ")") := by
      have hwords : " values (" = " values " ++ "(" := by decide
      rw [InsertSource.render, hwords]
      simp only [String.append_assoc]
    rw [htext]
    exact ⟨_, SpellsAlways.append hvalues (hs.parens.weaken fun _ _ => trivial), separate_append _ (by decide),
      fun _ _ => by simp [behindColumns],
      reads_kind_bind (reads_advance_bind (hread.parens (reads_pure _)))⟩
  | query hq =>
    obtain ⟨ks, hs, hread⟩ := queryRestored_of_formed hr hq
    obtain ⟨c, d, hc, hkind⟩ := hread.exists (k := .eof) (by simp)
    have hselect : ks.headD .eof = .keyword .select := hkind ▸ query_starts hc
    refine ⟨ks, SpellsBefore.space_before hs, separate_append _ (by decide), ?_, fun c d hm hd => ?_⟩
    · rintro _ rfl
      rw [hselect]
      decide
    · rw [insertSource, kind_bind, hm.current, hd, hselect]
      exact hread.map hm (hd ▸ List.mem_cons_self ..)

theorem insert_restores (hr : r.SparesOperators) {i : Insert} (h : (Statement.insert i).Formed r) :
    ∃ ks, Spells (i.render r) (.keyword .insert :: ks) ∧
      Reads (insert r) (· = .eof) (.keyword .insert :: ks) i := by
  cases h with
  | @insert table columns rows htable hcolumns hrows =>
    have hinto : SpellsAlways "insert into " [.keyword .insert, .keyword .into] :=
      Spells.space_after (s := "insert into") (spells_words ["insert", "into"] (by decide))
    have hrest : Restores (do
        let table ← dottedName
        let columns ← insertColumns?
        let source ← insertSource r
        return (⟨table, columns, source⟩ : Insert)) (· = .eof) _ (⟨table, columns, rows⟩ : Insert) :=
      (dottedName_restores htable).bind
        ((insertColumns?_continues hcolumns).bind (insertSource_continues hr hrows).map)
    obtain ⟨ks, hs, hread⟩ := hrest
    simp only [Insert.render, String.append_assoc]
    exact ⟨_, SpellsAlways.append hinto hs, reads_keyword_bind (reads_keyword_bind hread)⟩

/-- What can stand behind a condition or an assignment of a statement. -/
def behindAssignments : List Kind := [.keyword .where, .eof]

theorem where_continues (hr : r.SparesOperators) {condition : Option Expr}
    (h : ∀ e ∈ condition, e.Free r) (hM : M (.keyword .where)) (hend : M .eof) :
    Continues (clause? (readers r) .where) M (· = .eof) (Expr.renderClause r " where " condition)
      condition := by
  have hwords : SpellsAlways " where " [.keyword .where] := spells_between ["where"] (by decide)
  refine clause?_continues (fun e he => restored_of_free hr (h e he)) hwords hM ?_
  rintro _ rfl
  exact ⟨hend, rfl, by simp⟩

theorem assignment_restores (hr : r.SparesOperators) {a : String × Expr} (hcolumn : IsDotted a.1)
    (he : a.2.Free r) :
    Restores (assignment r) (·.stops 0 = true) (Update.renderAssignment r a) a := by
  obtain ⟨ks, hs, hread⟩ := dottedName_restores hcolumn
  obtain ⟨ks', hs', hread'⟩ := (restored_of_free hr he).expression 0
  refine ⟨ks ++ .symbol .equal :: ks', ?_,
    hread.bind (reads_symbol_bind hread'.map) fun _ _ => by simp⟩
  rw [Update.renderAssignment, String.append_assoc]
  exact hs.append (SpellsAlways.append spells_equal hs') (separate_append _ (by decide))

theorem name?_continues {a : Option String} (ha : IsAlias a) :
    Continues name? (· ≠ .symbol .dot) (· = .keyword .set) (QualifiedName.aliasText a) a := by
  cases a with
  | none => exact continues_absent (name?_absent (by simp)) (by simp)
  | some n =>
    have hname : Spells n [.name n] := (spells_name (ha n rfl)).weaken fun _ => Boundary.nameEnd
    exact ⟨[.name n], SpellsBefore.space_before hname, separate_append _ (by decide), fun _ _ => by simp,
      name?_present n⟩

theorem update_restores (hr : r.SparesOperators) {u : Update} (h : (Statement.update u).Formed r) :
    ∃ ks, Spells (u.render r) (.keyword .update :: ks) ∧
      Reads (updateAsWritten r) (· = .eof) (.keyword .update :: ks) u := by
  cases h with
  | @update table a assignments condition htable ha hne _ hassignments hcondition =>
    have hupdate : SpellsAlways "update " [.keyword .update] :=
      Spells.space_after (s := "update") (spells_words ["update"] (by decide))
    have hset : SpellsAlways " set " [.keyword .set] := spells_between ["set"] (by decide)
    have hlist : Restores (commaList (assignment r)) (· ∈ behindAssignments)
        (Text.join ", " (assignments.map (Update.renderAssignment r))) assignments :=
      restores_commaList _ spells_commaSpace (by decide)
        (fun a ha => assignment_restores hr (hassignments a ha).1 (hassignments a ha).2) hne rfl
        (by decide) (by decide)
    have hwhere := where_continues (M := (· ∈ behindAssignments)) hr hcondition (by decide) (by decide)
    have hrest : Restores (do
        let table ← dottedName
        let aliasName ← name?
        keyword .set
        let assignments ← commaList (assignment r)
        let condition ← clause? (readers r) .where
        return (⟨table, aliasName, assignments, condition⟩ : Update)) (· = .eof) _
        (⟨table, a, assignments, condition⟩ : Update) :=
      (dottedName_restores htable).bind ((name?_continues ha).bind
        (Restores.behind_words (M := (· = .keyword .set)) (hlist.bind hwhere.map) hset rfl
          fun ks hks => reads_keyword_bind hks))
    obtain ⟨ks, hs, hread⟩ := hrest
    simp only [Update.render, String.append_assoc]
    exact ⟨ks, SpellsAlways.append hupdate hs, reads_keyword_bind hread⟩

theorem delete_restores (hr : r.SparesOperators) {d : Delete} (h : (Statement.delete d).Formed r) :
    ∃ ks, Spells (d.render r) (.keyword .delete :: ks) ∧
      Reads (delete r) (· = .eof) (.keyword .delete :: ks) d := by
  cases h with
  | @delete table condition htable hcondition =>
    have hdelete : SpellsAlways "delete from " [.keyword .delete, .keyword .from] :=
      Spells.space_after (s := "delete from") (spells_words ["delete", "from"] (by decide))
    have hrest : Restores (do
        let table ← dottedName
        return (⟨table, ← clause? (readers r) .where⟩ : Delete)) (· = .eof) _
        (⟨table, condition⟩ : Delete) :=
      (dottedName_restores htable).bind
        (where_continues (M := (· ≠ .symbol .dot)) hr hcondition (by simp) (by simp)).map
    obtain ⟨ks, hs, hread⟩ := hrest
    simp only [Delete.render, String.append_assoc]
    exact ⟨_, SpellsAlways.append hdelete hs, reads_keyword_bind (reads_discard_bind hread rfl)⟩

/-! ## LOCK TABLE and transactions -/

theorem lockMode_restores (mode : LockMode) :
    Restores lockMode (· = .name "mode") mode.text mode := by
  cases mode with
  | rowShare =>
    exact ⟨[.name "ROW", .name "SHARE"], spells_words ["ROW", "SHARE"] (by decide),
      reads_accept_then (reads_accept_then (reads_pure _) (by decide)) (by decide)⟩
  | rowExclusive =>
    exact ⟨[.name "ROW", .name "EXCLUSIVE"], spells_words ["ROW", "EXCLUSIVE"] (by decide),
      reads_accept_then (reads_accept_other (reads_word_bind (reads_pure _) (by decide))
        (by decide)) (by decide)⟩
  | shareUpdate =>
    exact ⟨[.name "SHARE", .keyword .update], spells_words ["SHARE", "UPDATE"] (by decide),
      reads_accept_other (reads_accept_then (reads_accept_then (reads_pure _) (by decide))
        (by decide)) (by decide)⟩
  | share =>
    refine ⟨[.name "SHARE"], spells_words ["SHARE"] (by decide), reads_accept_other (reads_accept_then
      (reads_accept_else (reads_accept_else (reads_pure _) ?_) ?_) (by decide)) (by decide)⟩
    · rintro _ rfl
      decide
    · rintro _ rfl
      decide
  | shareRowExclusive =>
    exact ⟨[.name "SHARE", .name "ROW", .name "EXCLUSIVE"], spells_words ["SHARE", "ROW", "EXCLUSIVE"] (by decide),
      reads_accept_other (reads_accept_then (reads_accept_other (reads_accept_then
        (reads_word_bind (reads_pure _) (by decide)) (by decide)) (by decide)) (by decide))
        (by decide)⟩
  | exclusive =>
    exact ⟨[.name "EXCLUSIVE"], spells_words ["EXCLUSIVE"] (by decide), reads_accept_other (reads_accept_other
      (reads_accept_then (reads_pure _) (by decide)) (by decide)) (by decide)⟩

theorem nowait_continues (tables : List String) (mode : LockMode) (nowait : Bool) :
    Continues (do
      word "MODE"
      return (⟨tables, mode, ← acceptWord "NOWAIT"⟩ : Lock)) (· = .name "mode") (· = .eof)
      (" mode" ++ (if nowait then " nowait" else "")) ⟨tables, mode, nowait⟩ := by
  cases nowait with
  | true =>
    have hwords : Spells "mode nowait" [.name "mode", .name "nowait"] :=
      spells_words ["mode", "nowait"] (by decide)
    have htext : " mode" ++ (if true then " nowait" else "") = " " ++ "mode nowait" := by decide
    rw [htext]
    exact ⟨_, SpellsBefore.space_before hwords, separate_append _ (by decide), fun _ _ => rfl,
      reads_word_bind (reads_accept_bind (reads_pure _) (by decide)) (by decide)⟩
  | false =>
    have hwords : Spells "mode" [.name "mode"] := spells_words ["mode"] (by decide)
    have htext : " mode" ++ (if false then " nowait" else "") = " " ++ "mode" := by decide
    rw [htext]
    refine ⟨_, SpellsBefore.space_before hwords, separate_append _ (by decide), fun _ _ => rfl,
      reads_word_bind (reads_accept_skip (reads_pure _) ?_) (by decide)⟩
    rintro _ rfl
    rfl

theorem lock_restores {l : Lock} (h : (Statement.lock l).Formed r) :
    ∃ ks, Spells l.render (.name "lock" :: ks) ∧ Reads lock (· = .eof) (.name "lock" :: ks) l := by
  cases h with
  | @lock tables mode nowait hne htables =>
    have hlock : SpellsAlways "lock table " [.name "lock", .name "table"] :=
      Spells.space_after (s := "lock table") (spells_words ["lock", "table"] (by decide))
    have hin : SpellsAlways " in " [.keyword .in] := spells_between ["in"] (by decide)
    have hlist : Restores (commaList dottedName) (· = .keyword .in) (Text.join ", " tables) tables := by
      have hlist := restores_commaList (N := (· = .keyword .in)) id spells_commaSpace (by decide) (fun t ht => dottedName_restores (htables t ht)) hne (by simp)
        (by rintro _ rfl; simp) (by simp)
      rwa [List.map_id] at hlist
    have hrest : Restores (do
        let tables ← commaList dottedName
        keyword .in
        let mode ← lockMode
        word "MODE"
        return (⟨tables, mode, ← acceptWord "NOWAIT"⟩ : Lock)) (· = .eof) _
        (⟨tables, mode, nowait⟩ : Lock) :=
      hlist.bind (Restores.behind_words (M := (· = .keyword .in))
        ((lockMode_restores mode).bind (nowait_continues tables mode nowait)) hin rfl
        fun ks hks => reads_keyword_bind hks)
    obtain ⟨ks, hs, hread⟩ := hrest
    simp only [Lock.render, String.append_assoc]
    exact ⟨_, SpellsAlways.append hlock hs,
      reads_word_bind (reads_word_bind hread (by decide)) (by decide)⟩

/-- No token spells the word WORK. -/
def Workless (ks : List Kind) : Prop := ∀ k ∈ ks, k.isWord "WORK" = false

instance (ks : List Kind) : Decidable (Workless ks) :=
  inferInstanceAs (Decidable (∀ k ∈ ks, k.isWord "WORK" = false))

theorem comment?_reads (comment : Option String) :
    ∃ ks, Spells (Transaction.renderComment comment) ks ∧
      Separate (Transaction.renderComment comment) ∧ Workless ks ∧
      Reads comment? (· = .eof) ks comment := by
  cases comment with
  | none =>
    refine ⟨[], spells_nil, separate_nil, by decide, reads_accept_else (reads_pure _) ?_⟩
    rintro _ rfl
    rfl
  | some comment =>
    have hword : SpellsAlways " comment " [.name "comment"] := spells_between ["comment"] (by decide)
    have hstring := (spells_string comment).weaken boundary_no_quote
    have hwork : Kind.isWord "WORK" (.name "comment") = false := by decide
    exact ⟨_, SpellsAlways.append hword hstring, separate_append _ (by decide), by simp [Workless, hwork]; rfl,
      reads_accept_then (reads_kind_bind (reads_advance_bind (reads_pure _))) (by decide)⟩

/-- The word that ends a transaction, with a comment. -/
theorem ending_restores {w : String} {t : Transaction} {comment : Option String}
    (hw : Spells w [.name w]) (hending : Reads ending (fun _ => True) [.name w] t)
    (hwork : Kind.isWord "WORK" (.name w) = false) (hlock : Kind.isWord "LOCK" (.name w) = false)
    (hword : (Kind.isWord "COMMIT" (.name w) || Kind.isWord "ROLLBACK" (.name w)) = true) :
    ∃ ks, Spells (w ++ Transaction.renderComment comment) ks ∧ Workless ks ∧
      Reads (statement r) (· = .eof) ks (.transaction { t with comment }) := by
  obtain ⟨ks, hs, hseparate, hworkless, hread⟩ := comment?_reads comment
  have hhead : ∀ k, k = .eof → (ks.headD k).isWord "WORK" = false := by
    rintro _ rfl
    cases ks with
    | nil => rfl
    | cons k ks => exact hworkless k (List.mem_cons_self ..)
  refine ⟨.name w :: ks, hw.append hs hseparate, ?_, reads_kind_bind ?_⟩
  · simpa [Workless] using ⟨hwork, hworkless⟩
  · have hall : Reads endTransaction (· = .eof) (.name w :: ks) { t with comment } :=
      hending.bind (reads_discard_skip hread.map hhead) fun _ _ => trivial
    simp only [hlock, hword, Bool.false_eq_true, if_true, if_false]
    exact hall.map

theorem transaction_restores {t : Transaction} (h : t.Form) :
    ∃ ks, Spells t.render ks ∧ Workless ks ∧
      Reads (statement r) (· = .eof) ks (.transaction t) := by
  cases h with
  | @commit comment =>
    have htext : Transaction.render { Transaction.commit with comment } =
        "commit" ++ Transaction.renderComment comment := by
      have hwords : Text.lower Transaction.commit.statement = "commit" := by decide
      have hset : Transaction.commit.statement ≠ Transaction.setWords := by decide
      simp [Transaction.render, hwords, hset]
    rw [htext]
    exact ending_restores (spells_words ["commit"] (by decide)) (reads_accept_then (reads_pure _) (by decide))
      (by decide) (by decide) (by decide)
  | @rollback comment =>
    have htext : Transaction.render { Transaction.rollback with comment } =
        "rollback" ++ Transaction.renderComment comment := by
      have hwords : Text.lower Transaction.rollback.statement = "rollback" := by decide
      have hset : Transaction.rollback.statement ≠ Transaction.setWords := by decide
      simp [Transaction.render, hwords, hset]
    rw [htext]
    exact ending_restores (spells_words ["rollback"] (by decide))
      (reads_accept_other (reads_word_bind (reads_pure _) (by decide)) (by decide))
      (by decide) (by decide) (by decide)
  | @set readOnly =>
    cases readOnly with
    | true =>
      have htext : (Transaction.set true).render =
          Text.join " " ["set", "transaction", "read", "only"] := by decide
      rw [htext]
      exact ⟨[.keyword .set, .name "transaction", .name "read", .name "only"],
        spells_words ["set", "transaction", "read", "only"] (by decide), by decide,
        reads_kind_bind (Reads.map (reads_keyword_bind (reads_word_bind (reads_word_bind
          (reads_accept_then (reads_pure _) (by decide)) (by decide)) (by decide))))⟩
    | false =>
      have htext : (Transaction.set false).render =
          Text.join " " ["set", "transaction", "read", "write"] := by decide
      rw [htext]
      exact ⟨[.keyword .set, .name "transaction", .name "read", .name "write"],
        spells_words ["set", "transaction", "read", "write"] (by decide), by decide,
        reads_kind_bind (Reads.map (reads_keyword_bind (reads_word_bind (reads_word_bind
          (reads_accept_other (reads_word_bind (reads_pure _) (by decide)) (by decide))
          (by decide)) (by decide))))⟩

/-! ## Every statement -/

theorem statement_restores (hr : r.SparesOperators) {s : Statement} (h : s.Formed r) :
    Restores (statement r) (· = .eof) (s.render r) s := by
  cases s with
  | query q =>
    cases h with
    | query hq =>
      obtain ⟨ks, hs, hread⟩ := queryRestored_of_formed hr hq
      refine ⟨ks, hs, fun c d hm hd => ?_⟩
      have hquery := hread hm (hd ▸ List.mem_cons_self ..)
      rw [statement, kind_bind, query_starts hquery]
      dsimp only
      rw [bind_apply, hquery]
      rfl
  | insert i =>
    obtain ⟨ks, hs, hread⟩ := insert_restores hr h
    exact ⟨_, hs, reads_kind_bind hread.map⟩
  | update u =>
    obtain ⟨ks, hs, hread⟩ := update_restores hr h
    cases h with
    | update _ _ _ hnodup =>
      have hupdate : Reads (update r) (· = .eof) (.keyword .update :: ks) _ := hread.map
      rw [Update.merge_of_nodup hnodup] at hupdate
      exact ⟨_, hs, reads_kind_bind hupdate.map⟩
  | delete d =>
    obtain ⟨ks, hs, hread⟩ := delete_restores hr h
    exact ⟨_, hs, reads_kind_bind hread.map⟩
  | lock l =>
    obtain ⟨ks, hs, hread⟩ := lock_restores h
    refine ⟨_, hs, reads_kind_bind ?_⟩
    have hlock : Kind.isWord "LOCK" (.name "lock") = true := by decide
    simp only [hlock, if_true]
    exact hread.map
  | transaction t =>
    cases h with
    | transaction ht =>
      obtain ⟨ks, hs, -, hread⟩ := transaction_restores ht
      exact ⟨ks, hs, hread⟩

theorem terminator_reads : Reads terminator (· = .eof) [] () := by
  intro c d hm hd
  obtain rfl := Cursor.moves_nil.mp hm
  simp [terminator, bind_apply, acceptSymbol, accept, Reading.kind, hd, pure_apply]

theorem statement?_restores (hr : r.SparesOperators) {s : Statement} (h : s.Formed r) :
    Restores (statement? r) (· = .eof) (s.render r) (some s) := by
  obtain ⟨ks, hs, hread⟩ := statement_restores hr h
  refine ⟨ks, hs, fun c d hm hd => ?_⟩
  exact statement?_of_statement (hread hm hd) (terminator_reads (.refl d) hd)

/-- An expression that ends a statement is read as a condition. -/
theorem condition_of_expression {c d f : Cursor} {e : Expr}
    (h : (readers r).expression 0 c = (.ok e, d)) (hterminator : terminator d = (.ok (), f)) :
    condition r c = (.ok e, f) := by
  have hwhere : c.current.kind ≠ .keyword .where := by
    intro hk
    have hstarts := h
    rw [expression_readers] at hstarts
    have hstarts := expression_starts hstarts
    rw [hk] at hstarts
    cases hstarts
  have hskip : discard (acceptKeyword .where) c = (.ok (), c) :=
    discard_ok.mpr ⟨false, acceptKeyword_ok.mpr (.inr ⟨rfl, hwhere, rfl⟩)⟩
  rw [condition, bind_apply, hskip]
  dsimp only
  rw [bind_apply, h]
  dsimp only
  rw [bind_apply, hterminator]
  rfl

theorem condition_reads {e : Expr} (h : Reads ((readers r).expression 0) (· = .eof) ks e) :
    Reads (condition r) (· = .eof) ks e :=
  fun _ d hm hd => condition_of_expression (h hm hd) (terminator_reads (.refl d) hd)

theorem condition_restores (hr : r.SparesOperators) {e : Expr} (h : e.Free r) :
    Restores (condition r) (· = .eof) (e.render r) e := by
  obtain ⟨ks, hs, hread⟩ := (restored_of_free hr h).expression 0
  refine ⟨ks, hs, condition_reads (hread.weaken ?_)⟩
  rintro k rfl
  rfl

end Grammar

/-- What has been read at any place of a text is read again from the text that is written for it: a
    statement, behind which there is no other one, and a condition. -/
theorem render_read (r : Registry) (hr : r.SparesOperators) (text : String) (c : Cursor)
    (hc : (Cursor.ofText text).Reaches c) :
    (∀ s, (Grammar.statement? r c).1 = .ok (some s) →
      ∃ d, Grammar.statement? r (Cursor.ofText (s.render r)) = (.ok (some s), d) ∧
        (Grammar.statement? r d).1 = .ok none) ∧
      ∀ e, (Grammar.condition r c).1 = .ok e →
        (Grammar.condition r (Cursor.ofText (e.render r))).1 = .ok e := by
  refine ⟨fun s h => ?_, fun e h => ?_⟩
  · have hformed := Grammar.statement?_formed hc (Prod.ext h rfl)
    obtain ⟨d, hread, hend⟩ := (Grammar.statement?_restores hr hformed).ofText
    exact ⟨d, hread, by rw [Grammar.statement?_at_end hend]⟩
  · have hfree := Grammar.condition_free hc (Prod.ext h rfl)
    obtain ⟨d, hread, -⟩ := (Grammar.condition_restores hr hfree).ofText
    rw [hread]

theorem render_read_update :
    ∃ s, (Grammar.statement? Registry.builtin
        (Cursor.ofText "update t set a=-1,b=\x27it\x27\x27s\x27 where sum(c)+1>=2 and d is null")).1 =
          .ok (some s) ∧
      ∃ d, Grammar.statement? Registry.builtin (Cursor.ofText (s.render Registry.builtin)) =
          (.ok (some s), d) ∧ (Grammar.statement? Registry.builtin d).1 = .ok none := by
  have hspares : Registry.builtin.SparesOperators := by
    unfold Registry.SparesOperators
    decide
  have hread : ((Grammar.statement? Registry.builtin
      (Cursor.ofText "update t set a=-1,b=\x27it\x27\x27s\x27 where sum(c)+1>=2 and d is null")).1.toOption.bind
        id).isSome = true := by decide +kernel
  obtain ⟨s, hs⟩ := Option.isSome_iff_exists.mp hread
  obtain ⟨o, ho, rfl⟩ := Option.bind_eq_some_iff.mp hs
  have hs := ok_of_toOption ho
  exact ⟨s, hs, (render_read _ hspares _ _ (.refl _)).1 s hs⟩

end SqlFront
