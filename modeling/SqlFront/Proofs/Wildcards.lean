import SqlFront.Proofs.ItemPlaces

/-! # Wildcards

Whether a select item is a wildcard is decided from the text of a column, in which its names and a `*`
behind the last dot have been joined. Main statement: the wildcards among the items of everything that
is read are those that were written as wildcards, and besides them the columns whose last name has a
star within its quotes; every other item has the expression that is read from its tokens.
-/

namespace SqlFront

/-! ## Names with a star -/

namespace QualifiedName

open Text

/-- What is left of a name that is the last of a text: what stands behind its last dot, and of that the
    argument if it looks like a call. -/
def lastSegment (name : String) : String := segment ((pieces '.' name.toList).getLastD [])

theorem column_join {names : List String} {n : String} (hn : Token.IsName n) :
    (ofText (Text.join "." (names ++ [n])) .column).column = some (lastSegment n) := by
  obtain ⟨front, last, hpieces⟩ := (List.eq_nil_or_concat' _).resolve_left (pieces_ne_nil '.' n.toList)
  have hname : joinDots (front ++ [last]) = n.toList := hpieces ▸ joinDots_pieces n.toList
  -- A name does not end with a dot, so something stands behind the last one.
  have hlast : last ≠ [] := by
    rintro rfl
    obtain ⟨c, cs, hs, -⟩ := hn.first
    cases front with
    | nil => simp [hs, joinDots] at hname
    | cons piece front =>
      rw [joinDots_append (List.cons_ne_nil _ _) (List.cons_ne_nil _ _)] at hname
      have hdot : '.' ∈ n.toList.getLast? := by
        rw [← hname]
        exact List.getLast?_concat
      obtain h | h := hn.edges (.inr hdot)
      · revert h
        decide
      · cases h
  have hsegment : lastSegment n = segment last := by
    rw [lastSegment, hpieces]
    simp
  have hparts : parts (Text.join "." (names ++ [n])) =
      ((names.map String.toList).flatMap (pieces '.') ++ front).filter (· ≠ []) ++ [last] := by
    rw [parts, toList_join, pieces_joinDots (by simp), List.map_append, List.flatMap_append]
    simp [hpieces, hlast]
  rw [hsegment, column_ofText hparts]

theorem form_ofText (text : String) (form : NameForm) : (ofText text form).form = form := by
  unfold ofText
  split <;> rfl

theorem isWildcard_iff {text s : String} (h : (ofText text .column).column = some s) :
    (ofText text .column).isWildcard = true ↔ '*' ∈ s.toList := by
  rw [isWildcard, form_ofText]
  simp [h]

end QualifiedName

namespace Rule

open Token

variable {ks : List Kind}

/-- Names with a `*` behind the last dot. -/
def AllOf (ks : List Kind) : Prop :=
  ∃ names, names ≠ [] ∧ ks = dotted names ++ [.symbol .dot, .symbol .star]

/-- Names, the last of which keeps a `*` as a segment. It must be quoted, as no word has one. -/
def WithStar (ks : List Kind) : Prop :=
  ∃ names n, ks = dotted (names ++ [n]) ∧ '*' ∈ (QualifiedName.lastSegment n).toList

/-- The tokens of a wildcard, which may have parentheses around it unless it is the `*` alone. Plus
    signs before it leave no trace. -/
def Wildcard (ks : List Kind) : Prop := ks = [.symbol .star] ∨ Grouped AllOf ks

/-- A column is taken for a wildcard if it ends with the token `*`, or if its last name has a star. -/
theorem column_wildcard_iff (hks : Written ks) :
    (∃ t, Column ks t ∧ (QualifiedName.ofText t .column).isWildcard = true) ↔
      AllOf ks ∨ WithStar ks := by
  have hname {names : List String} {n : String} (hks : Written (dotted (names ++ [n]))) :
      (QualifiedName.ofText (Text.join "." (names ++ [n])) .column).isWildcard = true ↔
        '*' ∈ (QualifiedName.lastSegment n).toList :=
    QualifiedName.isWildcard_iff (QualifiedName.column_join (hks (.name n) (mem_dotted (by simp))))
  constructor
  · rintro ⟨_, ⟨h⟩ | ⟨h⟩, hstar⟩
    · obtain ⟨names, hne, rfl, rfl⟩ := h.names
      obtain ⟨front, n, rfl⟩ := (List.eq_nil_or_concat' names).resolve_left hne
      exact .inr ⟨front, n, rfl, (hname hks).mp hstar⟩
    · obtain ⟨names, hne, rfl, -⟩ := h.names
      exact .inl ⟨names, hne, rfl⟩
  · rintro (⟨names, hne, rfl⟩ | ⟨names, n, rfl, hstar⟩)
    · refine ⟨_, .all (dotted_names hne), ?_⟩
      rw [QualifiedName.isWildcard_iff (QualifiedName.ofText_star _)]
      decide
    · exact ⟨_, .dotted (dotted_names (by simp)), (hname hks).mpr hstar⟩

theorem grouped_wildcard_iff (hks : Written ks) :
    (∃ t, Grouped (Column · t) ks ∧ (QualifiedName.ofText t .column).isWildcard = true) ↔
      Grouped AllOf ks ∨ Grouped WithStar ks := by
  rw [← grouped_exists, ← grouped_or]
  constructor
  · exact fun h => h.imp fun row hrow => (column_wildcard_iff fun k hk => hks k (hrow hk)).mp
  · exact fun h => h.imp fun row hrow => (column_wildcard_iff fun k hk => hks k (hrow hk)).mpr

end Rule

/-! ## Items -/

namespace SelectItem

variable {r : Registry} {i : SelectItem Expr}

theorem expression_column_eq_none {t : String} :
    (column t).expression = none ↔ (QualifiedName.ofText t .column).isWildcard = true := by
  simp [column]

theorem isWildcard_column {t : String} :
    (column t).isWildcard = true ↔ (column t).expression = none := by
  rw [isWildcard, Bool.and_eq_true, Option.isNone_iff_eq_none, and_iff_left_iff_imp]
  exact expression_column_eq_none.mp

theorem expression_ofExpr_eq_none {e : Expr} :
    (ofExpr r e).expression = none ↔
      ∃ t, e = .column t ∧ (QualifiedName.ofText t .column).isWildcard = true := by
  by_cases hcolumn : e.isColumn = true
  · obtain ⟨t, rfl⟩ := Expr.isColumn_iff.mp hcolumn
    refine expression_column_eq_none.trans ⟨fun h => ⟨t, rfl, h⟩, ?_⟩
    rintro ⟨_, heq, h⟩
    cases heq
    exact h
  · rw [expression_ofExpr (by simpa using hcolumn)]
    refine iff_of_false nofun ?_
    rintro ⟨t, rfl, -⟩
    exact hcolumn rfl

theorem isWildcard_ofExpr {e : Expr} :
    (ofExpr r e).isWildcard = true ↔ (ofExpr r e).expression = none := by
  by_cases hcolumn : e.isColumn = true
  · obtain ⟨t, rfl⟩ := Expr.isColumn_iff.mp hcolumn
    exact isWildcard_column
  · rw [isWildcard, expression_ofExpr (by simpa using hcolumn)]
    simp

theorem isWildcard_aliased (i : SelectItem Expr) (a : Option String) :
    (i.aliased a).isWildcard = i.isWildcard := by
  cases a <;> rfl

/-- What an item says of the tokens that stand for it at a place, but for its alias. -/
structure Reflects (r : Registry) (i : SelectItem Expr) (start : Cursor) (row : List Token.Kind) :
    Prop where
  /-- Wildcards are the items without an expression. -/
  wildcard : i.isWildcard = true ↔ i.expression = none
  /-- These are the written wildcards, and the columns whose last name has a star. -/
  dropped : i.expression = none ↔ Rule.Wildcard row ∨ Rule.Grouped Rule.WithStar row
  /-- Any other item has the expression that is read there. -/
  kept : row = [.symbol .star] ∨ ∃ e d, (Grammar.readers r).expression 0 start = (.ok e, d) ∧
    start.Moves row d ∧ (i.expression = none ∨ i.expression = some e)

/-- Between the two places the item is read, from tokens with an optional alias behind them, and it
    reflects these tokens. -/
def ShownBetween (r : Registry) (i : SelectItem Expr) (c d : Cursor) : Prop :=
  ∃ start finish row behind a, c.Reaches start ∧
    Grammar.selectItem r (Grammar.readers r) start = (.ok i, finish) ∧ finish.Reaches d ∧
    start.Moves (row ++ behind) finish ∧ Rule.Optional Rule.Alias behind a ∧ i.Reflects r start row

theorem reflects_all (start : Cursor) : wildcard.Reflects r start [.symbol .star] where
  wildcard := isWildcard_column
  dropped := iff_of_true rfl (.inl (.inl rfl))
  kept := .inl rfl

theorem reflects_ofExpr {start d : Cursor} {row : List Token.Kind} {e : Expr}
    (hread : (Grammar.readers r).expression 0 start = (.ok e, d)) (hm : start.Moves row d)
    (hwritten : Token.Written row) (hstar : row ≠ [.symbol .star]) (a : Option String) :
    ((ofExpr r e).aliased a).Reflects r start row where
  wildcard := by
    rw [isWildcard_aliased, expression_aliased]
    exact isWildcard_ofExpr
  dropped := by
    obtain ⟨row', hm', -, hcolumn⟩ := (Rule.readers_sole r).expression 0 hread
    obtain rfl := hm.kinds_unique hm'
    simp only [expression_aliased, expression_ofExpr_eq_none, hcolumn,
      Rule.grouped_wildcard_iff hwritten, Rule.Wildcard, hstar, false_or]
  kept := by
    refine .inr ⟨e, d, hread, hm, ?_⟩
    rw [expression_aliased]
    obtain ⟨h, -⟩ | ⟨-, -, -, h | h⟩ := ofExpr_cases r e
    · exact .inr h
    · exact .inr h
    · exact .inl h

theorem ReadBetween.shown {text : String} {c d : Cursor} (h : i.ReadBetween r c d)
    (hc : (Cursor.ofText text).Reaches c) : i.ShownBetween r c d := by
  obtain ⟨start, finish, hstart, hread, hfinish⟩ := h
  have hitem := hread
  rw [Grammar.selectItem] at hitem
  simp only [↓Reading.acceptSymbol_ite, Reading.bind_ok, Reading.pure_ok] at hitem
  obtain ⟨_, hm, rfl, rfl⟩ | ⟨hother, e, middle, hexpression, a, _, halias, hitem⟩ := hitem
  · exact ⟨start, _, _, [], none, hstart, hread, hfinish, by simpa using hm, .absent,
      reflects_all start⟩
  · obtain ⟨row, hm, -⟩ := (Rule.readers_sole r).expression 0 hexpression
    obtain ⟨behind, hm', ha⟩ := Grammar.optionalAlias_takes halias
    have hne : row ≠ [.symbol .star] := by
      rintro rfl
      exact hother hm.current_cons
    have hreflects := reflects_ofExpr hexpression hm ((hc.trans hstart).written hm) hne a
    cases a <;> obtain ⟨rfl, rfl⟩ := Reading.pure_ok.mp hitem <;>
      exact ⟨start, _, row, behind, _, hstart, hread, hfinish, hm.trans hm', ha, hreflects⟩

end SelectItem

/-- Every select item of what is read anywhere in a text, those of subqueries included, is read from
    tokens of its own. It is a wildcard, and has no expression, exactly if these are the tokens of a
    wildcard or those of a column whose last name keeps a star; otherwise its expression is the one that
    is read there. -/
theorem wildcards_as_written (r : Registry) (text : String) (c : Cursor)
    (hc : (Cursor.ofText text).Reaches c) (i : SelectItem Expr) (d : Cursor) :
    (∀ s, Grammar.statement? r c = (.ok (some s), d) → s.HasItem i → i.ShownBetween r c d) ∧
    (∀ ss, Grammar.statements r c = (.ok ss, d) → ∀ s ∈ ss, s.HasItem i → i.ShownBetween r c d) ∧
    ∀ e, Grammar.condition r c = (.ok e, d) → e.HasItem i → i.ShownBetween r c d :=
  ⟨fun s h hi => (Grammar.statement?_finds h ⟨s, rfl, hi⟩).shown hc,
    fun _ h s hs hi => (Grammar.statements_finds h ⟨s, hs, hi⟩).shown hc,
    fun _ h hi => (Grammar.condition_finds h hi).shown hc⟩

theorem wildcards_as_written_nested :
    ∃ s d i, Grammar.statement? Registry.builtin (Cursor.ofText
        "select u.a from u where exists (select (v.*) from v)") = (.ok (some s), d) ∧
      s.HasItem i ∧ i.isWildcard = true ∧
      i.ShownBetween Registry.builtin
        (Cursor.ofText "select u.a from u where exists (select (v.*) from v)") d := by
  have hread : (Grammar.statement? Registry.builtin (Cursor.ofText
      "select u.a from u where exists (select (v.*) from v)")).1.toOption =
        some (some (.query ⟨false, [.column "u.a"], [.ofText "u" .table],
          some (.unary Operator.exist (.query ⟨false, [.column "v.*"], [.ofText "v" .table], none, none,
            none, [], false⟩)), none, none, [], false⟩)) := by
    decide +kernel
  have hs : Grammar.statement? Registry.builtin (Cursor.ofText
      "select u.a from u where exists (select (v.*) from v)") = (.ok (some _), _) :=
    Prod.ext (ok_of_toOption hread) rfl
  refine ⟨_, _, .column "v.*", hs, ?item, by decide +kernel,
    (wildcards_as_written _ _ _ (.refl _) _ _).1 _ hs ?item⟩
  simp [Query.parts]

/-- A quoted name with a star in it is no written wildcard, and yet is taken for one. -/
theorem quoted_star_dropped :
    (Cursor.ofText "SELECT \x22a*b\x22 FROM t").kinds =
      [.keyword .select, .name "\x22a*b\x22", .keyword .from, .name "t"] ∧
    ¬ Rule.Wildcard [.name "\x22a*b\x22"] ∧
    ∃ s i, (Grammar.statement? Registry.builtin (Cursor.ofText "SELECT \x22a*b\x22 FROM t")).1 =
        .ok (some s) ∧
      s.HasItem i ∧ i.isWildcard = true ∧ i.expression = none := by
  have hread : (Grammar.statement? Registry.builtin
      (Cursor.ofText "SELECT \x22a*b\x22 FROM t")).1.toOption =
        some (some (.query ⟨false, [.column "\x22a*b\x22"], [.ofText "t" .table], none, none, none, [],
          false⟩)) := by
    decide +kernel
  have hwritten : ¬ Rule.Wildcard [.name "\x22a*b\x22"] := by
    rintro (h | h)
    · cases h
    · generalize hrow : [Token.Kind.name "\x22a*b\x22"] = row at h
      cases h with
      | plain h =>
        obtain ⟨names, -, rfl⟩ := h
        exact absurd (congrArg List.getLast? hrow) (by simp)
      | group | plus => cases hrow
  refine ⟨by decide +kernel, hwritten, _, .column "\x22a*b\x22", ok_of_toOption hread, ?_,
    by decide +kernel, by decide +kernel⟩
  simp [Query.parts]

end SqlFront
