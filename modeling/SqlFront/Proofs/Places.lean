import SqlFront.Proofs.Followers
import SqlFront.Proofs.Strata

/-! # The same expression in every place

A row of tokens that is an expression by itself stands for the same expression wherever a statement or
another expression has one. Main statement: statements with such rows in the places of their expressions
are read, and hold these expressions there; and what is read behind the WHERE of a DELETE is what the
row behind it stands for by itself.
-/

namespace SqlFront

namespace Reading

open Token

variable {α β : Type} {p q : Reading α} {f : α → Reading β} {a : α} {b : β} {ks ks' : List Kind}
  {L M N : Kind → Prop}

/-- Behind what is read the next reading starts. -/
theorem Reads.bind_eq {c d : Cursor} (h : Reads p M ks a) (hm : c.Moves ks d) (hd : M d.current.kind) :
    (p >>= f) c = f a d := by
  rw [bind_apply, h hm hd]

/-- What follows takes in nothing more. -/
theorem Reads.finish (h : Reads p N ks a) (hf : Reads (f a) N [] b) : Reads (p >>= f) N ks b := by
  simpa using h.bind hf fun _ hk => hk

/-- The reading takes in the tokens behind something else: the first of them, or what stands behind if
    there are none, is as described. -/
structure Resumes (p : Reading α) (M N : Kind → Prop) (ks : List Kind) (a : α) : Prop where
  head : ∀ k, N k → M (ks.headD k)
  reads : Reads p N ks a

theorem Reads.resume (h : Reads p M ks a) (h' : Resumes (f a) M N ks' b) :
    Reads (p >>= f) N (ks ++ ks') b :=
  h.bind h'.reads h'.head

theorem Resumes.resume (h : Resumes p L M ks a) (h' : Resumes (f a) M N ks' b) :
    Resumes (p >>= f) L N (ks ++ ks') b where
  head k hk := by
    have hhead := h.head _ (h'.head k hk)
    cases ks <;> exact hhead
  reads := h.reads.resume h'

theorem Resumes.map {g : α → β} (h : Resumes p M N ks a) :
    Resumes (p >>= fun a => pure (g a)) M N ks (g a) :=
  ⟨h.head, h.reads.map⟩

/-- A clause that is not there. -/
theorem resumes_without {word : Keyword} (h : Reads q N [] a)
    (hN : ∀ k, N k → M k ∧ k ≠ .keyword word) :
    Resumes (acceptKeyword word >>= fun accepted => if accepted = true then p else q) M N [] a :=
  ⟨fun k hk => (hN k hk).1, reads_accept_else h fun k hk => by simpa using (hN k hk).2⟩

/-- A clause behind its reserved word. -/
theorem resumes_behind {word : Keyword} (h : Reads p N ks a) (hM : M (.keyword word)) :
    Resumes (acceptKeyword word >>= fun accepted => if accepted = true then p else q) M N
      (.keyword word :: ks) a :=
  ⟨fun _ _ => hM, reads_accept_then h (by simp)⟩

end Reading

/-- The row of tokens is read as the expression where nothing else stands, with no word before it that
    is skipped there. -/
structure ByItself (r : Registry) (ks : List Token.Kind) (x : Expr) : Prop where
  read : ∃ c : Cursor, c.kinds = ks ∧ (Grammar.condition r c).1 = .ok x
  semicolon : .symbol .semicolon ∉ ks
  eof : .eof ∉ ks
  starts : ks.head? ≠ some (.keyword .where)

/-- What may stand behind a query. -/
def Grammar.behindQuery : List Token.Kind := .symbol .semicolon :: Grammar.closers

/-- The rules of the grammar with rows that stand by themselves for expressions. -/
def Rules.placed (r : Registry) : Rules where
  expression _ := ByItself r
  query := Reading.Reads (Grammar.readers r).query (· ∈ Grammar.behindQuery)

namespace Grammar

open Reading Token Kind

variable {r : Registry} {ks ks' : List Kind} {M N : Kind → Prop}

/-- Behind a row in which no statement ends only the end is left. -/
theorem terminator_at_end {c d e : Cursor} (h : terminator d = (.ok (), e)) (hm : c.Moves ks d)
    (hsemicolon : .symbol .semicolon ∉ c.kinds) (heof : .eof ∉ c.kinds) :
    d.current.kind = .eof ∧ d.kinds = [] := by
  rw [hm.kinds] at hsemicolon heof
  obtain hpass | ⟨hkind, -⟩ := terminator_ok.mp h
  · exact absurd (by rw [hpass.kinds]; simp) hsemicolon
  · refine ⟨hkind, ?_⟩
    rw [Cursor.current_kind] at hkind
    cases hkinds : d.kinds with
    | nil => rfl
    | cons k rest =>
      obtain rfl : k = .eof := by simpa [hkinds] using hkind
      exact absurd (by rw [hkinds]; simp) heof

/-- What stands by itself is read before every token with which no expression goes on. -/
theorem byItself_reads {x : Expr} (h : ByItself r ks x) :
    Reads ((readers r).expression 0) (·.stops 0 = true) ks x := by
  obtain ⟨⟨c, rfl, hread⟩, hsemicolon, heof, hwhere⟩ := h
  have hread : condition r c = (.ok x, (condition r c).2) := Prod.ext hread rfl
  simp only [condition, bind_ok, discard_ok, acceptKeyword_ok, pure_ok] at hread
  obtain ⟨_, c₁, ⟨_, hskip⟩, x, c₂, hx, _, c₃, hend, rfl, -⟩ := hread
  obtain ⟨-, hm⟩ | ⟨-, -, rfl⟩ := hskip
  · exact absurd (by rw [hm.kinds]; rfl) hwhere
  obtain ⟨ks, hm⟩ := moved hx
  obtain ⟨hkind, hrest⟩ := terminator_at_end hend hm hsemicolon heof
  have hloose := readers_expression_loose r 0 hx hm (by rw [hkind]; rfl)
  rwa [hm.kinds, hrest, List.append_nil]

theorem byItself_cons {x : Expr} (h : ByItself r ks x) :
    ∃ k rest, ks = k :: rest ∧ startsOperand k = true := by
  obtain ⟨c, d, hread, hkind⟩ := (byItself_reads h).exists (k := .eof) rfl
  rw [expression_readers] at hread
  have hstarts := expression_starts hread
  rw [hkind] at hstarts
  cases ks with
  | nil => cases hstarts
  | cons k rest => exact ⟨k, rest, rfl, hstarts⟩

theorem placed_readable (r : Registry) : Readable r (.placed r) where
  expression _ _ h := (byItself_reads h).weaken (by simp; decide)
  query _ _ h := h.weaken (by rintro _ rfl; decide)

/-! ## Parts of a query -/

theorem alias_resumes {a : Option String} (h : Rule.Optional Rule.Alias ks a)
    (hM : ∀ k, k = .keyword .as ∨ (∃ n, k = .name n) → M k)
    (hN : ∀ k, N k → M k ∧ k ≠ .keyword .as ∧ k.startsPrimary = false) :
    Resumes optionalAlias M N ks a where
  head k hk := by
    cases h with
    | absent => exact (hN k hk).1
    | present h =>
      cases h with
      | as => exact hM _ (.inl rfl)
      | bare => exact hM _ (.inr ⟨_, rfl⟩)
  reads := (optionalAlias_reads h).weaken fun k hk => by
    refine ⟨(hN k hk).2.1, ?_⟩
    rintro n rfl
    exact absurd (hN _ hk).2.2 (by simp [startsPrimary])

theorem selectItem_reads {item : SelectItem Expr} (h : Rule.Item r (.placed r) ks item) :
    Reads (selectItem r (readers r)) (· ∈ [.symbol .comma, .keyword .from]) ks item := by
  cases h with
  | all => exact reads_accept_then (reads_pure _) rfl
  | @expression ks e ks' a h halias =>
    have hname := alias_resumes (M := (·.stops 0 = true))
      (N := (· ∈ [.symbol .comma, .keyword .from])) halias (by rintro _ (rfl | ⟨_, rfl⟩) <;> rfl)
      (by decide)
    obtain ⟨k, rest, rfl, hstarts⟩ := byItself_cons h
    refine reads_accept_else ((byItself_reads h).bind (hname.reads.finish ?_) hname.head) fun _ _ => ?_
    · cases a <;> exact reads_pure _
    · refine beq_eq_false_iff_ne.mpr ?_
      rintro rfl
      cases hstarts

theorem source_reads {s : QualifiedName} (h : Rule.Source ks s) :
    Reads source (· ∈ .symbol .comma :: .symbol .semicolon :: behindSources) ks s := by
  obtain @⟨ks, t, ks', a, ht, halias⟩ := h
  have hname := alias_resumes (M := (· ≠ .symbol .dot))
    (N := (· ∈ .symbol .comma :: .symbol .semicolon :: behindSources)) halias
    (by rintro _ (rfl | ⟨_, rfl⟩) <;> simp) (by decide)
  refine (dottedName_reads ht).bind (hname.reads.finish ?_) hname.head
  cases a <;> exact reads_pure _

/-- A condition behind its reserved word, or nothing. -/
theorem clause?_resumes {word : Keyword} {condition : Option Expr}
    (h : Rule.Optional (Rule.Condition (.placed r) word) ks condition) (hM : M (.keyword word))
    (hN : ∀ k, N k → M k ∧ k.stops 0 = true ∧ k ≠ .keyword word) :
    Resumes (clause? (readers r) word) M N ks condition := by
  cases h with
  | absent => exact resumes_without (reads_pure _) fun k hk => ⟨(hN k hk).1, (hN k hk).2.2⟩
  | present h =>
    obtain ⟨h⟩ := h
    exact resumes_behind ((byItself_reads h).weaken fun k hk => (hN k hk).2.1).map hM

theorem expressions_reads {es : List Expr} (h : Rule.Listed (ByItself r) ks es)
    (hN : ∀ k, N k → k.stops 0 = true ∧ k ≠ .symbol .comma) :
    Reads (expressions (readers r)) N ks es :=
  commaList_reads (fun _ _ h => byItself_reads h) h rfl (fun k hk => (hN k hk).1)
    fun hcomma => (hN _ hcomma).2 rfl

theorem groupBy?_resumes {group : Option (GroupBy Expr)}
    (h : Rule.Optional (Rule.Group (.placed r)) ks group) :
    Resumes (groupBy? (readers r)) (· ∈ .symbol .semicolon :: behindWhere)
      (· ∈ .symbol .semicolon :: behindGroup) ks group := by
  have hfollow : ∀ k ∈ .symbol .semicolon :: behindGroup,
      k ∈ .keyword .having :: .symbol .semicolon :: behindGroup ∧ k.stops 0 = true ∧
        k ≠ .keyword .having := by decide
  have hlist : ∀ k ∈ .keyword .having :: .symbol .semicolon :: behindGroup,
      k.stops 0 = true ∧ k ≠ .symbol .comma := by decide
  cases h with
  | absent => exact resumes_without (reads_pure _) (by decide)
  | present h =>
    obtain ⟨hes, hhaving⟩ := h
    have hclause := clause?_resumes hhaving (by decide) hfollow
    refine resumes_behind (reads_keyword_bind ?_) (by decide)
    exact (expressions_reads hes hlist).resume hclause.map

theorem setOperator?_reads {operator : String} (h : Rule.SetOperator ks operator) :
    Reads setOperator? (· ≠ .keyword .all) ks (some operator) := by
  cases h with
  | union => exact reads_kind_bind (reads_advance_bind (reads_accept_else (reads_pure _) (by simp)))
  | unionAll => exact reads_kind_bind (reads_advance_bind (reads_accept_then (reads_pure _) rfl))
  | intersect | minus | except => exact reads_kind_bind (reads_advance_bind (reads_pure _))

theorem direction_reads {e : Expr} {ascending : Bool} (h : Rule.Direction ks ascending)
    (hN : ∀ k, N k → k ≠ .keyword .asc ∧ k ≠ .keyword .desc) :
    Reads (do
      if ← acceptKeyword .desc then return (⟨e, false⟩ : OrderBy Expr)
      discard (acceptKeyword .asc)
      return ⟨e, true⟩) N ks ⟨e, ascending⟩ := by
  cases h with
  | ascending =>
    exact reads_accept_else (reads_discard_skip (reads_pure _) fun k hk => by simpa using (hN k hk).1)
      fun k hk => by simpa using (hN k hk).2
  | asc => exact reads_accept_other (reads_discard_bind (reads_pure _) rfl) rfl
  | desc => exact reads_accept_then (reads_pure _) rfl

theorem orderEntry_reads {entry : OrderBy Expr} (h : Rule.Entry (.placed r) ks entry) :
    Reads (orderEntry (readers r))
      (fun k => k.stops 0 = true ∧ k ≠ .keyword .asc ∧ k ≠ .keyword .desc) ks entry := by
  obtain ⟨he, hdirection⟩ := h
  refine (byItself_reads he).bind (direction_reads hdirection fun k hk => hk.2) fun k hk => ?_
  cases hdirection with
  | ascending => exact hk.1
  | asc | desc => rfl

theorem orderBy_resumes {order : List (OrderBy Expr)} (h : Rule.Order (.placed r) ks order)
    (hM : M (.keyword .order))
    (hN : ∀ k, N k → M k ∧ (k.stops 0 = true ∧ k ≠ .keyword .asc ∧ k ≠ .keyword .desc) ∧
      k ≠ .symbol .comma ∧ k ≠ .keyword .order) :
    Resumes (orderBy (readers r)) M N ks order := by
  cases h with
  | none => exact resumes_without (reads_pure _) fun k hk => ⟨(hN k hk).1, (hN k hk).2.2.2⟩
  | some h =>
    refine resumes_behind (reads_keyword_bind ?_) hM
    exact commaList_reads (fun _ _ h => orderEntry_reads h) h (by decide) (fun k hk => (hN k hk).2.1)
      fun hcomma => (hN _ hcomma).2.2.1 rfl

theorem forUpdate_resumes {locked : Bool} (h : Rule.ForUpdate ks locked) (hM : M (.keyword .for))
    (hN : ∀ k, N k → M k ∧ k ≠ .keyword .for) : Resumes forUpdate M N ks locked := by
  cases h with
  | none => exact resumes_without (reads_pure _) hN
  | some => exact resumes_behind (reads_keyword_bind (reads_pure _)) hM

/-! ## Queries -/

/-- A set operator with the query that it joins. Without parentheses the query goes on as long as it
    can, so it has to end before the tokens that may stand behind it. -/
inductive Joined (r : Registry) (behind : List Kind) : Rule (Operation Expr)
  | enclosed {ks operator ks' q} : Rule.SetOperator ks operator →
      Rule.Enclosed (Rules.placed r).query ks' q → Joined r behind (ks ++ ks') ⟨operator, [.query q], false⟩
  | bare {ks operator ks' q} : Rule.SetOperator ks operator →
      Reads (readers r).query (· ∈ behind) ks' q → Joined r behind (ks ++ ks') ⟨operator, [.query q], false⟩

theorem joinedQuery_reads {q : Query Expr} (h : Reads (readers r).query N ks q) :
    Reads (joinedQuery (readers r)) N ks q := by
  intro c d hm hd
  have hq := h hm hd
  rw [joinedQuery, kind_bind, if_neg (by rw [query_starts hq]; simp)]
  exact hq

theorem setOperation?_resumes {behind : List Kind} {op : Operation Expr} (h : Joined r behind ks op) :
    Resumes (setOperation? (readers r)) (· ∈ .symbol .semicolon :: behindGroup) (· ∈ behind) ks
      (some op) := by
  have hhead {ks ks' : List Kind} {operator : String} (h : Rule.SetOperator ks operator) (k : Kind) :
      (ks ++ ks').headD k ∈ .symbol .semicolon :: behindGroup := by
    cases h <;> simp [behindGroup]
  cases h with
  | enclosed hop h =>
    obtain ⟨h⟩ := h
    have hjoined := enclosedQuery_reads (N := (· ∈ behind)) ((placed_readable r).query _ _ h)
    exact ⟨fun k _ => hhead hop k, (setOperator?_reads hop).bind
      (Reads.map (reads_kind_bind hjoined)) fun _ _ => by simp⟩
  | bare hop h =>
    refine ⟨fun k _ => hhead hop k, (setOperator?_reads hop).bind (joinedQuery_reads h).map
      fun k hk => ?_⟩
    obtain ⟨c, d, hc, hkind⟩ := h.exists hk
    rw [← hkind, query_starts hc]
    simp

/-- What stands behind the groups of a query: an operation with another query, the order, and whether
    the rows are locked. -/
inductive Tail (r : Registry) : List Kind → Option (Operation Expr) → List (OrderBy Expr) → Bool → Prop
  | mk {set o order os lock l} :
      Rule.Optional (Joined r (behindQuery.map (order ++ lock).headD)) set o →
      Rule.Order (.placed r) order os → Rule.ForUpdate lock l → Tail r (set ++ (order ++ lock)) o os l

theorem tail_resumes {α : Type} {o : Option (Operation Expr)} {os : List (OrderBy Expr)} {l : Bool}
    (h : Tail r ks o os l) (g : Option (Operation Expr) → List (OrderBy Expr) → Bool → α) :
    Resumes (do
      let set ← setOperation? (readers r)
      let order ← orderBy (readers r)
      let locked ← forUpdate
      return g set order locked) (· ∈ .symbol .semicolon :: behindGroup) (· ∈ behindQuery) ks
      (g o os l) := by
  have hmore : ∀ k ∈ .symbol .semicolon :: behindSet, k ∈ .symbol .semicolon :: behindGroup := by
    decide
  obtain @⟨set, _, order, _, lock, _, hset, horder, hlock⟩ := h
  have horder := orderBy_resumes (M := (· ∈ .symbol .semicolon :: behindSet))
    (N := (· ∈ .symbol .semicolon :: behindOrder)) horder (by decide) (by decide)
  have hlock := forUpdate_resumes (M := (· ∈ .symbol .semicolon :: behindOrder))
    (N := (· ∈ behindQuery)) hlock (by decide) (by decide)
  have hrest := horder.resume (f := fun order => do
    let locked ← forUpdate
    return g o order locked) hlock.map
  cases hset with
  | absent => exact ⟨fun k hk => hmore _ (hrest.head k hk), (setOperation?_absent (by decide)).resume hrest⟩
  | present h =>
    exact (setOperation?_resumes h).resume ⟨fun k hk => List.mem_map_of_mem hk, hrest.reads⟩

/-- A query with rows that stand by themselves for its expressions. -/
inductive QueryRow (r : Registry) : Rule (Query Expr)
  | mk {distinct d items is sources ss condition c group g tail o os l} :
      Rule.Distinct distinct d → Rule.Listed (Rule.Item r (.placed r)) items is →
      Rule.Listed Rule.Source sources ss → Rule.Optional (Rule.Condition (.placed r) .where) condition c →
      Rule.Optional (Rule.Group (.placed r)) group g → Tail r tail o os l →
      QueryRow r (.keyword .select :: distinct ++ items ++ .keyword .from :: sources ++ condition
        ++ group ++ tail) ⟨d, is, ss, c, g, o, os, l⟩

theorem query_reads {q : Query Expr} (h : QueryRow r ks q) :
    Reads (readers r).query (· ∈ behindQuery) ks q := by
  obtain @⟨distinct, d, items, is, sources, ss, condition, c, group, g, tail, o, os, l, hdistinct,
    hitems, hsources, hcondition, hgroup, htail⟩ := h
  have hfollow : ∀ k ∈ .symbol .semicolon :: behindWhere, k ∈ .symbol .semicolon :: behindSources ∧
      k.stops 0 = true ∧ k ≠ .keyword .where := by decide
  have hitems : Reads (commaList (selectItem r (readers r))) (· = .keyword .from) items is :=
    commaList_reads (fun _ _ h => selectItem_reads h) hitems (by simp) (by simp) (by simp)
  have hsources : Reads (commaList source) (· ∈ .symbol .semicolon :: behindSources) sources ss :=
    commaList_reads (fun _ _ h => source_reads h) hsources (by simp)
      (fun k hk => List.mem_cons_of_mem _ hk) (by decide)
  have hcondition := clause?_resumes (M := (· ∈ .symbol .semicolon :: behindSources)) hcondition
    (by decide) hfollow
  have hrest : Reads (do
      let items ← commaList (selectItem r (readers r))
      keyword .from
      let sources ← commaList source
      let condition ← clause? (readers r) .where
      let group ← groupBy? (readers r)
      let set ← setOperation? (readers r)
      let order ← orderBy (readers r)
      let locked ← forUpdate
      return (⟨d, items, sources, condition, group, set, order, locked⟩ : Query Expr))
      (· ∈ behindQuery) (items ++ .keyword .from :: (sources ++ (condition ++ (group ++ tail))))
      ⟨d, is, ss, c, g, o, os, l⟩ :=
    hitems.bind (reads_keyword_bind (hsources.resume (hcondition.resume
      ((groupBy?_resumes hgroup).resume (tail_resumes htail _))))) fun _ _ => rfl
  have hhead : items.headD (.keyword .from) ≠ .keyword .distinct ∧
      items.headD (.keyword .from) ≠ .keyword .all := by
    obtain ⟨c, e, hc, hkind⟩ := hitems.exists rfl
    exact hkind ▸ selectItems_starts hc
  have hselect : Reads (query r (readers r)) (· ∈ behindQuery) _ _ :=
    reads_keyword_bind ((distinct_reads hdistinct).bind hrest fun _ _ => by cases items <;> exact hhead)
  rw [query_readers]
  simpa using hselect

/-! ## Statements -/

/-- What may stand behind a statement. -/
def behindStatement : List Kind := [.symbol .semicolon, .eof]

theorem dotted_reads_list {columns : List String} (h : Rule.Listed Rule.Dotted ks columns) :
    Reads (commaList dottedName) (· = .symbol .rightParen) ks columns :=
  commaList_reads (fun _ _ h => dottedName_reads h) h (by simp) (by rintro _ rfl; simp) (by simp)

/-- The tokens behind the table of an INSERT without columns. -/
theorem insertColumns?_none {c : Cursor}
    (h : c.current.kind ≠ .symbol .leftParen ∨ c.advance.current.kind = .keyword .select) :
    insertColumns? c = (.ok none, c) := by
  rw [insertColumns?, kind_bind]
  split
  · rename_i hparen
    rw [nextKind_bind, if_pos (h.resolve_left (absurd hparen))]
    rfl
  · rfl

theorem insertSource_reads {source : InsertSource} (h : Rule.Rows (.placed r) ks source) :
    Reads (insertSource r) (· ∈ behindStatement) ks source := by
  cases h with
  | values h =>
    obtain ⟨h⟩ := h
    exact reads_kind_bind (reads_advance_bind ((expressions_reads h (by rintro _ rfl; decide)).parens
      (reads_pure _)))
  | query h =>
    intro c d hm hd
    have hq := h hm (by revert hd; generalize d.current.kind = k; revert k; decide)
    rw [insertSource, kind_bind, query_starts hq]
    dsimp only
    rw [bind_apply, hq]
    rfl
  | enclosed h =>
    obtain ⟨h⟩ := h
    exact reads_kind_bind (Reads.map (enclosedQuery_reads ((placed_readable r).query _ _ h)))

/-- The rows of an INSERT start with VALUES, a query, or a query between parentheses. -/
theorem insertSource_starts {c d : Cursor} {source : InsertSource}
    (h : insertSource r c = (.ok source, d)) : c.current.kind ≠ .symbol .dot ∧
      (c.current.kind ≠ .symbol .leftParen ∨ c.advance.current.kind = .keyword .select) := by
  rw [insertSource, kind_bind] at h
  split at h
  · rename_i hk
    simp [hk]
  · rename_i hk
    simp [hk]
  · rename_i hk
    obtain ⟨q, e, hq, -⟩ := bind_ok.mp h
    rw [enclosedQuery, symbol_bind hk] at hq
    obtain ⟨q, e, hq, -⟩ := bind_ok.mp hq
    exact ⟨by simp [hk], .inr (query_starts hq)⟩
  · exact absurd h (by simp [unexpected_ok])

theorem insert_reads {i : Insert} (h : Rule.Insertion (.placed r) ks i) :
    Reads (insert r) (· ∈ behindStatement) ks i := by
  obtain @⟨ks, t, ks', columns, rows, source, htable, hcolumns, hrows⟩ := h
  have hsource := insertSource_reads hrows
  have hhead (k : Kind) (hk : k ∈ behindStatement) : rows.headD k ≠ .symbol .dot := by
    obtain ⟨c, d, hc, hkind⟩ := hsource.exists hk
    exact hkind ▸ (insertSource_starts hc).1
  have hrest : Resumes (do
      let columns ← insertColumns?
      let source ← insertSource r
      return (⟨t, columns, source⟩ : Insert)) (· ≠ .symbol .dot) (· ∈ behindStatement) (ks' ++ rows)
      ⟨t, columns, source⟩ := by
    cases hcolumns with
    | absent =>
      refine ⟨hhead, fun c d hm hd => ?_⟩
      have hread := hsource hm hd
      rw [bind_apply, insertColumns?_none (insertSource_starts hread).2]
      exact hsource.map hm hd
    | present h =>
      obtain ⟨h⟩ := h
      exact ⟨fun k _ => by simp, (insertColumns?_reads (N := fun _ => True) (dotted_reads_list h)).bind
        hsource.map fun _ _ => trivial⟩
  have hall : Reads (insert r) (· ∈ behindStatement)
      (.keyword .insert :: .keyword .into :: (ks ++ (ks' ++ rows))) _ :=
    reads_keyword_bind (reads_keyword_bind ((dottedName_reads htable).resume hrest))
  simpa using hall

theorem assignment_reads {a : String × Expr} (h : Rule.Assignment (.placed r) ks a) :
    Reads (assignment r) (·.stops 0 = true) ks a := by
  obtain ⟨hcolumn, he⟩ := h
  exact (dottedName_reads hcolumn).bind (reads_symbol_bind (byItself_reads he).map) fun _ _ => by simp

theorem name?_resumes {a : Option String} (h : Rule.Optional Rule.Name ks a) :
    Resumes name? (· ≠ .symbol .dot) (· = .keyword .set) ks a := by
  cases h with
  | absent =>
    exact ⟨by simp, name?_absent (by simp)⟩
  | present h =>
    cases h
    exact ⟨by simp, name?_present _⟩

theorem updateAsWritten_reads {u : Update} (h : Rule.Change (.placed r) ks u) :
    Reads (updateAsWritten r) (· ∈ behindStatement) ks u := by
  obtain @⟨ks, t, ks', a, set, assignments, where', condition, htable, ha, hset, hwhere⟩ := h
  have hassignments : Reads (commaList (assignment r)) (· ∈ .keyword .where :: behindStatement) set
      assignments :=
    commaList_reads (fun _ _ h => assignment_reads h) hset rfl (by decide) (by decide)
  have hcondition := clause?_resumes (M := (· ∈ .keyword .where :: behindStatement))
    (N := (· ∈ behindStatement)) hwhere (by decide) (by decide)
  have hrest : Reads (do
      keyword .set
      let assignments ← commaList (assignment r)
      let condition ← clause? (readers r) .where
      return (⟨t, a, assignments, condition⟩ : Update)) (· ∈ behindStatement)
      (.keyword .set :: (set ++ where')) ⟨t, a, assignments, condition⟩ :=
    reads_keyword_bind (hassignments.resume hcondition.map)
  have hall : Reads (updateAsWritten r) (· ∈ behindStatement) _ _ :=
    reads_keyword_bind ((dottedName_reads htable).resume
      ((name?_resumes ha).resume ⟨fun _ _ => rfl, hrest⟩))
  simpa using hall

theorem delete_reads {d : Delete} (h : Rule.Deletion (.placed r) ks d) :
    Reads (delete r) (· ∈ behindStatement) ks d := by
  obtain @⟨from', ks, t, where', condition, hfrom, htable, hwhere⟩ := h
  have hcondition := clause?_resumes (M := (· ≠ .symbol .dot))
    (N := (· ∈ behindStatement)) hwhere (by simp) (by decide)
  have hrest : Reads (do
      let table ← dottedName
      return (⟨table, ← clause? (readers r) .where⟩ : Delete)) (· ∈ behindStatement) (ks ++ where')
      ⟨t, condition⟩ :=
    (dottedName_reads htable).resume hcondition.map
  cases hfrom with
  | absent =>
    have hfrom : ∀ k, ((ks ++ where').headD k == .keyword .from) = false := by
      obtain ⟨n, rest, rfl, -⟩ := dotted_cons htable
      exact fun _ => rfl
    have hall : Reads (delete r) (· ∈ behindStatement) (.keyword .delete :: (ks ++ where')) _ :=
      reads_keyword_bind (reads_discard_skip hrest fun k _ => hfrom k)
    simpa using hall
  | present =>
    have hall : Reads (delete r) (· ∈ behindStatement)
        (.keyword .delete :: .keyword .from :: (ks ++ where')) _ :=
      reads_keyword_bind (reads_discard_bind hrest rfl)
    simpa using hall

/-- A statement with rows that stand by themselves for its expressions. -/
inductive StatementRow (r : Registry) : Rule Statement
  | query {ks q} : QueryRow r ks q → StatementRow r ks (.query q)
  | insert {ks i} : Rule.Insertion (.placed r) ks i → StatementRow r ks (.insert i)
  | update {ks u} : Rule.Change (.placed r) ks u →
      StatementRow r ks (.update { u with assignments := Update.merge u.assignments })
  | delete {ks d} : Rule.Deletion (.placed r) ks d → StatementRow r ks (.delete d)

theorem statement_reads {s : Statement} (h : StatementRow r ks s) :
    Reads (statement r) (· ∈ behindStatement) ks s := by
  have hfollow : ∀ k ∈ behindStatement, k ∈ behindQuery := by decide
  cases h with
  | query h =>
    have hread := (query_reads h).weaken hfollow
    obtain ⟨_⟩ := h
    exact reads_kind_bind hread.map
  | insert h =>
    have hread := insert_reads h
    obtain ⟨_⟩ := h
    exact reads_kind_bind hread.map
  | update h =>
    have hread : Reads (update r) (· ∈ behindStatement) _ _ := (updateAsWritten_reads h).map
    obtain ⟨_⟩ := h
    exact reads_kind_bind hread.map
  | delete h =>
    have hread := delete_reads h
    obtain ⟨_⟩ := h
    exact reads_kind_bind hread.map

/-- A statement is read up to the end or up to its semicolon. -/
theorem statement?_reads {c : Cursor} {s : Statement} {rest : List Kind}
    (h : Reads (statement r) (· ∈ behindStatement) ks s) (hc : c.kinds = ks ++ rest)
    (hrest : rest = [] ∨ rest.head? = some (.symbol .semicolon)) :
    (statement? r c).1 = .ok (some s) := by
  obtain ⟨d, hm, hd⟩ := Cursor.exists_moves hc
  have hkind : d.current.kind = rest.headD .eof := by rw [Cursor.current_kind, hd]
  obtain ⟨e, hend, hterminator⟩ : ∃ e, d.current.kind ∈ behindStatement ∧ terminator d = (.ok (), e) := by
    obtain rfl | hrest := hrest
    · exact ⟨d, by simp [hkind, behindStatement], terminator_ok.mpr (.inr ⟨hkind, rfl⟩)⟩
    · obtain ⟨rest, rfl⟩ := List.head?_eq_some_iff.mp hrest
      exact ⟨d.advance, by simp [hkind, behindStatement],
        terminator_ok.mpr (.inl (Cursor.current_moves hkind (by simp)))⟩
  rw [statement?_of_statement (h hm hend) hterminator]

/-! ## Expressions -/

theorem membership_reads {first not : List Kind} {left : Expr} {operator : String} {es : List Expr}
    (hleft : Rule.Primary r (.placed r) first left)
    (hnot : Rule.Negation Operator.isIn Operator.notIn not operator)
    (h : Rule.Enclosed (Rule.Listed (ByItself r)) ks es) :
    Reads ((readers r).expression 0) (·.stops 0 = true) (first ++ (not ++ .keyword .in :: ks))
      (.applied operator (left :: es)) := by
  obtain ⟨h⟩ := h
  -- Before the operator and its candidates the left side is an operand by itself.
  have htest {k : Kind} {ks : List Kind} (hp : Power.of? k = some ⟨9, Power.testOperand, .test⟩)
      (hk : k.apart = true)
      (htest : Reads (test (readers r) left) (·.stops 0 = true) (k :: ks) (.applied operator (left :: es))) :
      Reads ((readers r).expression 0) (·.stops 0 = true) (first ++ k :: ks)
        (.applied operator (left :: es)) := by
    have hstep := chainStep_reads_test hp rfl (Nat.zero_le _) htest
    rw [expression_readers]
    exact expression_reads (operand_reads_primary (primary_reads (placed_readable r) hleft))
      (hstep.goes (chainStep_progress _ 0)) (fun _ _ => hk) fun _ hk => ⟨hk, hk⟩
  have hin (negated : Bool) : Reads (test (readers r) left) (·.stops 0 = true)
      (notKinds negated ++ .keyword .in :: _)
      (.applied (if negated then Operator.notIn else Operator.isIn) (left :: es)) :=
    test_reads (by decide) (testOf_reads_in (candidates_reads
      (expressions_reads h (by rintro _ rfl; decide))))
  cases hnot with
  | plain => exact htest rfl rfl (hin false)
  | negative => exact htest rfl rfl (hin true)

/-- An expression is made of tokens of which statements are made. -/
theorem expression_inner {power : Nat} {c d : Cursor} {e : Expr}
    (h : (readers r).expression power c = (.ok e, d)) (hm : c.Moves ks d) : ∀ k ∈ ks, k.inner = true := by
  have htrack := (readers_tracks (L := within c) r c.ahead.length c.ahead.length).expression power
    ⟨rfl, [], .refl c, nofun⟩ trivial (Nat.le_refl _) (Nat.le_refl _)
  rw [h] at htrack
  obtain ⟨-, -, ks', hm', hks'⟩ := htrack.resolve_left id
  exact hm.kinds_unique hm' ▸ hks'

/-- A row is read as an expression where nothing else stands if it is read so before every token with
    which no expression goes on. -/
theorem condition_of_reads {x : Expr} (h : Reads ((readers r).expression 0) (·.stops 0 = true) ks x)
    {c : Cursor} (hc : c.kinds = ks) : (condition r c).1 = .ok x := by
  obtain ⟨d, hm, hd⟩ := Cursor.exists_moves (hc.trans (List.append_nil ks).symm)
  have hend : d.current.kind = .eof := by rw [Cursor.current_kind, hd, List.headD_nil]
  have hread := condition_reads (h.weaken (by rintro _ rfl; rfl)) hm hend
  rw [hread]

theorem byItself_iff {x : Expr} :
    ByItself r ks x ↔ Reads ((readers r).expression 0) (·.stops 0 = true) ks x := by
  refine ⟨byItself_reads, fun h => ?_⟩
  obtain ⟨c, hc⟩ : ∃ c : Cursor, c.kinds = ks :=
    ⟨⟨[], ks.map (⟨·, ⟨0, 0⟩⟩), ⟨0, 0⟩⟩, by simp [Cursor.kinds, Function.comp_def]⟩
  obtain ⟨d, hm, hd⟩ := Cursor.exists_moves (hc.trans (List.append_nil ks).symm)
  have hread := h hm (by rw [Cursor.current_kind, hd]; rfl)
  have hinner := expression_inner hread hm
  refine ⟨⟨c, hc, condition_of_reads h hc⟩, fun hmem => ?_, fun hmem => ?_, fun hhead => ?_⟩
  · cases hinner _ hmem
  · cases hinner _ hmem
  · rw [expression_readers] at hread
    have hstarts := expression_starts hread
    obtain ⟨rest, rfl⟩ := List.head?_eq_some_iff.mp hhead
    rw [hm.current_cons] at hstarts
    cases hstarts

/-! ## Behind the WHERE of a DELETE -/

/-- A DELETE with a WHERE goes on with an expression. -/
theorem delete_where {from' table : List Kind} {t : String} {c d : Cursor}
    (hfrom : Rule.OptionalFrom from') (htable : Rule.Dotted table t)
    (hm : c.Moves (.keyword .delete :: from' ++ table ++ [.keyword .where]) d) :
    delete r c = ((readers r).expression 0 >>= fun e => pure ⟨t, some e⟩) d := by
  have hm : c.Moves (.keyword .delete :: (from' ++ (table ++ [.keyword .where]))) d := by simpa using hm
  obtain ⟨c₁, hdelete, hm⟩ := hm.cons
  obtain ⟨c₂, hfrom', hm⟩ := hm.split
  obtain ⟨c₃, htable', hwhere⟩ := hm.split
  have hname : c₂.current.kind ≠ .keyword .from := by
    obtain ⟨n, rest, rfl, -⟩ := dotted_cons htable
    simp [htable'.current_cons]
  have hskip : Reads (discard (acceptKeyword .from)) (· ≠ .keyword .from) from' () := by
    cases hfrom with
    | absent =>
      intro c d hm hd
      obtain rfl := Cursor.moves_nil.mp hm
      exact discard_ok.mpr ⟨false, acceptKeyword_ok.mpr (.inr ⟨rfl, hd, rfl⟩)⟩
    | present => exact fun _ _ hm _ => discard_ok.mpr ⟨true, acceptKeyword_ok.mpr (.inl ⟨rfl, hm⟩)⟩
  have hkeyword : Reads (keyword .delete) (fun _ => True) [.keyword .delete] () :=
    fun _ _ hm _ => keyword_ok.mpr hm
  have haccept : Reads (acceptKeyword .where) (fun _ => True) [.keyword .where] true :=
    fun _ _ hm _ => acceptKeyword_ok.mpr (.inl ⟨rfl, hm⟩)
  rw [delete, hkeyword.bind_eq hdelete trivial, hskip.bind_eq hfrom' hname,
    (dottedName_reads htable).bind_eq htable' (by simp [hwhere.current_cons]), clause?,
    Reading.bind_assoc, haccept.bind_eq hwhere trivial, if_pos rfl, Reading.bind_assoc]
  rfl

/-- What is read of a row in front of the end of a statement is what it stands for by itself. -/
theorem condition_of_same_kinds {c c' d e : Cursor} {x : Expr}
    (h : (readers r).expression 0 c = (.ok x, d)) (hterminator : terminator d = (.ok (), e))
    (hkinds : c'.kinds = c.kinds) : (condition r c').1 = .ok x := by
  obtain ⟨ks, hm⟩ := moved h
  obtain ⟨d', hm', hd'⟩ := Cursor.exists_moves (hkinds.trans hm.kinds)
  have hkind : d'.current.kind = d.current.kind := by rw [Cursor.current_kind, Cursor.current_kind, hd']
  have hread := readers_expression_local r 0 h hm hm' hkind
  obtain ⟨f, hf⟩ : ∃ f, terminator d' = (.ok (), f) := by
    obtain hpass | ⟨hend, -⟩ := terminator_ok.mp hterminator
    · exact ⟨_, terminator_ok.mpr (.inl (Cursor.current_moves (hkind.trans hpass.current_cons) (by simp)))⟩
    · exact ⟨_, terminator_ok.mpr (.inr ⟨hkind.trans hend, rfl⟩)⟩
  rw [condition_of_expression hread hf]

theorem delete_where_read {from' table : List Kind} {t : String} {c : Cursor} {s : Statement}
    (hfrom : Rule.OptionalFrom from') (htable : Rule.Dotted table t)
    (hc : c.kinds = .keyword .delete :: from' ++ table ++ .keyword .where :: ks)
    (h : (statement? r c).1 = .ok (some s)) :
    ∃ x, s = .delete ⟨t, some x⟩ ∧ ∀ c' : Cursor, c'.kinds = ks → (condition r c').1 = .ok x := by
  have hc : c.kinds = .keyword .delete :: from' ++ table ++ [.keyword .where] ++ ks := by simpa using hc
  obtain ⟨d, hm, rfl⟩ := Cursor.exists_moves hc
  have hfirst : c.current.kind = .keyword .delete := hm.current_cons
  obtain ⟨c₁, c₂, h₁, h₂, h₃⟩ := statement?_parts (Prod.ext h rfl)
  rw [emptyStatements_other (by simp [hfirst])] at h₁
  cases h₁
  rw [statement, kind_bind, hfirst] at h₂
  obtain ⟨_, e, hdelete, hs⟩ := bind_ok.mp h₂
  obtain ⟨rfl, rfl⟩ := pure_ok.mp hs
  rw [delete_where hfrom htable hm] at hdelete
  obtain ⟨x, f, hx, hpure⟩ := bind_ok.mp hdelete
  obtain ⟨rfl, rfl⟩ := pure_ok.mp hpure
  exact ⟨x, rfl, fun c' hc' => condition_of_same_kinds hx h₃ hc'⟩

/-! ## Every place -/

/-- A row of tokens that is an expression by itself stands for this expression in every place: in the
    clauses of a query, the rows of an INSERT, the assignments and the condition of an UPDATE, the
    condition of a DELETE, the arguments of a call, the candidates of an IN, and between parentheses. -/
theorem same_in_every_place (r : Registry) :
    (∀ ks s, StatementRow r ks s → ∀ (c : Cursor) rest, c.kinds = ks ++ rest →
      rest = [] ∨ rest.head? = some (.symbol .semicolon) → (statement? r c).1 = .ok (some s)) ∧
    (∀ before column x after, column ∉ after.map Prod.fst →
      (column, x) ∈ Update.merge (before ++ (column, x) :: after)) ∧
    (∀ ks q, QueryRow r ks q → (Rules.placed r).query ks q) ∧
    (∀ ks x, Rule.Primary r (.placed r) ks x → ByItself r ks x) ∧
    (∀ first left not operator ks es, Rule.Primary r (.placed r) first left →
      Rule.Negation Operator.isIn Operator.notIn not operator →
      Rule.Enclosed (Rule.Listed (ByItself r)) ks es →
      ByItself r (first ++ (not ++ .keyword .in :: ks)) (.applied operator (left :: es))) ∧
    (∀ ks x, ByItself r ks x → ∀ c : Cursor, c.kinds = ks → (condition r c).1 = .ok x) ∧
    ∀ from' table t ks (c : Cursor) s, Rule.OptionalFrom from' → Rule.Dotted table t →
      c.kinds = .keyword .delete :: from' ++ table ++ .keyword .where :: ks →
      (statement? r c).1 = .ok (some s) →
      ∃ x, s = .delete ⟨t, some x⟩ ∧ ∀ c' : Cursor, c'.kinds = ks → (condition r c').1 = .ok x := by
  refine ⟨?_, ?_, ?_, ?_, ?_, ?_, ?_⟩
  · intro ks s h c rest hc hrest
    exact statement?_reads (statement_reads h) hc hrest
  · intro before column x after h
    exact Update.mem_merge_last before x h
  · intro ks q h
    exact query_reads h
  · intro ks x h
    have hread : Reads (expression r (readers r) 0) (·.stops 0 = true) ks x :=
      expression_reads_primary (primary_reads (placed_readable r) h)
    exact byItself_iff.mpr (expression_readers r 0 ▸ hread)
  · intro first left not operator ks es hleft hnot h
    exact byItself_iff.mpr (membership_reads hleft hnot h)
  · intro ks x h c hc
    exact condition_of_reads (byItself_reads h) hc
  · intro from' table t ks c s hfrom htable hc h
    exact delete_where_read hfrom htable hc h

theorem byItself_disjunction : ByItself Registry.builtin [.name "a", .keyword .or, .name "b"]
    (.binary "OR" (.column "a") (.column "b")) :=
  ⟨⟨Cursor.ofText "a or b", by decide +kernel, rfl⟩, by decide, by decide, by decide⟩

/-- A disjunction in the clauses of a query, between parentheses, as a candidate, and behind the WHERE
    of a DELETE. -/
theorem same_in_every_place_disjunction :
    ByItself Registry.builtin [.name "a", .keyword .or, .name "b"]
      (.binary "OR" (.column "a") (.column "b")) ∧
    (statement? Registry.builtin (Cursor.ofText
      "select a or b from t where a or b group by a or b having a or b order by a or b desc;")).1 =
        .ok (some (.query ⟨false, [SelectItem.ofExpr Registry.builtin (.binary "OR" (.column "a") (.column "b"))],
          [QualifiedName.ofText "t" .table], some (.binary "OR" (.column "a") (.column "b")),
          some ⟨[.binary "OR" (.column "a") (.column "b")], some (.binary "OR" (.column "a") (.column "b"))⟩,
          none, [⟨.binary "OR" (.column "a") (.column "b"), false⟩], false⟩)) ∧
    (condition Registry.builtin (Cursor.ofText "c not in ((a or b), a or b)")).1 =
      .ok (.applied Operator.notIn [.column "c", .binary "OR" (.column "a") (.column "b"),
        .binary "OR" (.column "a") (.column "b")]) ∧
    ∃ x, (statement? Registry.builtin (Cursor.ofText "delete from t where a or b")).1 =
        .ok (some (.delete ⟨"t", some x⟩)) ∧
      (condition Registry.builtin (Cursor.ofText "a or b")).1 = .ok x := by
  have hor := byItself_disjunction
  obtain ⟨hstatement, -, -, hprimary, hmembership, hcondition, hdelete⟩ :=
    same_in_every_place Registry.builtin
  refine ⟨hor, ?_, ?_, ?_⟩
  · have hquery := QueryRow.mk .none (.one (.expression hor .absent)) (.one (.mk (.one (n := "t")) .absent))
      (.present (.mk hor)) (.present (.mk (.one hor) (.present (.mk hor))))
      (.mk .absent (.some (.one (.mk hor .desc))) .none)
    exact hstatement _ _ (.query hquery) _ [.symbol .semicolon] (by decide +kernel) (.inr rfl)
  · have hgroup := hprimary _ _ (.group (.mk (.one hor)))
    have hin := hmembership _ _ _ _ _ _ (.column (.dotted (.one (n := "c")))) .negative
      (.mk (.more (.one hgroup) hor))
    exact hcondition _ _ hin _ (by decide +kernel)
  · have hrow := StatementRow.delete (r := Registry.builtin)
      (.mk .present (.one (n := "t")) (.present (.mk hor)))
    have hread := hstatement _ _ hrow (Cursor.ofText "delete from t where a or b") []
      (by decide +kernel) (.inl rfl)
    obtain ⟨x, hx, hsame⟩ := hdelete _ _ _ [.name "a", .keyword .or, .name "b"] _ _ .present
      (.one (n := "t")) (by decide +kernel) hread
    exact ⟨x, hx ▸ hread, hsame _ (by decide +kernel)⟩

end Grammar

end SqlFront
