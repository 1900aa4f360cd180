import SqlFront.Proofs.Places

/-! # Chains of set operators

A query that is joined without parentheses goes on as long as it can. Main statement: a chain of
queries nests to the right, and the ORDER BY and FOR UPDATE behind it belong to the last query; behind a
query between parentheses they belong to the query before the operator, and no set operator may follow.
-/

namespace SqlFront

namespace Reading

open Token

variable {α β : Type} {p q : Reading α} {N : Kind → Prop}

theorem local_pure (a : α) : Local (pure a) :=
  fun _ _ _ _ h hm => steady_pure a h hm rfl

/-- A clause behind its reserved word, or what stands in its place. -/
theorem Steady.clause {word : Keyword} (hp : Steady N p) (hq : Steady N q) (hN : ¬ N (.keyword word)) :
    Steady N (acceptKeyword word >>= fun accepted => if accepted = true then p else q) :=
  Steady.bind (local_accept rfl) (steady_acceptKeyword hN) fun accepted => by
    cases accepted
    · exact hq
    · exact hp

/-- A word that says nothing and may be missing. -/
theorem steady_skip {word : Keyword} {f : Unit → Reading β} (hf : Steady N (f ())) (hN : ¬ N (.keyword word)) :
    Steady N (discard (acceptKeyword word) >>= f) :=
  Steady.bind ((local_accept rfl).bind fun _ => local_pure ())
    (Steady.bind (local_accept rfl) (steady_acceptKeyword hN) fun _ => steady_pure ()) fun _ => hf

theorem Steady.commaList {item : Reading α} (hlocal : Local item) (hitem : Steady N item)
    (hN : ¬ N (.symbol .comma)) : Steady N (commaList item) := by
  have hcomma : Steady N (acceptSymbol .comma) :=
    steady_accept rfl fun _ hk => beq_eq_false_iff_ne.mpr fun heq => hN (heq ▸ hk)
  refine Steady.bind hlocal hitem fun first =>
    Steady.iterate (fun items => ?_) (fun items => ?_) (progress_commaList item) [first]
  · refine (local_accept rfl).bind fun accepted => ?_
    cases accepted
    · exact local_pure _
    · exact hlocal.bind fun _ => local_pure _
  · refine Steady.bind (local_accept rfl) hcomma fun accepted => ?_
    cases accepted
    · exact steady_pure _
    · exact hitem.map

end Reading

/-- A query with nothing behind its groups. -/
structure Query.IsBody (q : Query Expr) : Prop where
  setOperation : q.setOperation = none
  orderBy : q.orderBy = []
  forUpdate : q.forUpdate = false

namespace Grammar

open Reading Token Kind

variable {r : Registry} {part : Readers} {ks ks' : List Kind} {L M N : Kind → Prop}

/-! ## Queries and what stands behind their groups -/

/-- A query up to its groups. -/
def body (r : Registry) (part : Readers) : Reading (Query Expr) := do
  keyword .select
  let distinct ← distinct
  let items ← commaList (selectItem r part)
  keyword .from
  let sources ← commaList source
  let condition ← clause? part .where
  let group ← groupBy? part
  return ⟨distinct, items, sources, condition, group, none, [], false⟩

/-- What stands behind the groups of a query. -/
def tail (part : Readers) (q : Query Expr) : Reading (Query Expr) := do
  let set ← setOperation? part
  let order ← orderBy part
  let locked ← forUpdate
  return { q with setOperation := set, orderBy := order, forUpdate := locked }

theorem query_eq (r : Registry) (part : Readers) : query r part = body r part >>= tail part := by
  simp only [query, body, Reading.bind_assoc]
  rfl

theorem body_local (h : part.Loose) : Local (body r part) :=
  .of_tracks fun L n m =>
    have h := h.tracks L n m
    Lockstep.tracks_keyword_bind <|
      distinct_tracks.bind fun _ =>
      (Lockstep.tracks_commaList (selectItem_tracks h)).bind fun _ =>
      (Lockstep.tracks_keyword _).bind fun _ =>
      (Lockstep.tracks_commaList source_tracks).bind fun _ =>
      (clause?_tracks h .where).bind fun _ =>
      (groupBy?_tracks h).bind fun _ => Lockstep.tracks_pure _

theorem body_isBody {c d : Cursor} {q : Query Expr} (h : body r part c = (.ok q, d)) : q.IsBody := by
  simp only [body, bind_ok, pure_ok] at h
  obtain ⟨_, _, -, _, _, -, _, _, -, _, _, -, _, _, -, _, _, -, _, _, -, rfl, -⟩ := h
  exact ⟨rfl, rfl, rfl⟩

/-- A query with nothing behind its groups has been read with nothing there. -/
theorem tail_isBody {c d : Cursor} {q q' : Query Expr} (h : tail part q c = (.ok q', d)) (hq : q.IsBody)
    (hq' : q'.IsBody) : d = c ∧ q' = q := by
  simp only [tail, bind_ok, pure_ok] at h
  obtain ⟨set, c₁, h₁, order, c₂, h₂, locked, c₃, h₃, rfl, rfl⟩ := h
  obtain ⟨rfl, rfl, rfl⟩ : set = none ∧ order = [] ∧ locked = false := ⟨hq'.1, hq'.2, hq'.3⟩
  obtain ⟨_, m₁, r₁⟩ := setOperation?_takes part.follow_trivial h₁
  obtain ⟨_, m₂, r₂⟩ := orderBy_takes part.follow_trivial h₂
  obtain ⟨_, m₃, r₃⟩ := forUpdate_takes h₃
  cases r₁
  cases r₃
  obtain rfl := Cursor.moves_nil.mp m₁
  obtain rfl := Cursor.moves_nil.mp m₃
  generalize hnone : ([] : List (OrderBy Expr)) = none at r₂
  cases r₂ with
  | none =>
    obtain rfl := Cursor.moves_nil.mp m₂
    obtain ⟨_, _, _, _, _, _, _, _⟩ := q
    obtain ⟨rfl, rfl, rfl⟩ := hq
    exact ⟨rfl, rfl⟩
  | some h => exact absurd hnone.symm h.ne_nil

/-! ## Queries before every token that may follow -/

section

variable (h : part.Loose)

include h

theorem clause?_steady {word : Keyword} (hstops : ∀ k, N k → k.stops 0 = true)
    (hword : ¬ N (.keyword word)) : Steady N (clause? part word) :=
  ((h.expression 0).mono hstops).map.clause (steady_pure _) hword

theorem clause?_local (word : Keyword) : Local (clause? part word) :=
  .of_tracks fun L n m => clause?_tracks (h.tracks L (n + 1) (m + 1)) word

theorem expressions_steady (hstops : ∀ k, N k → k.stops 0 = true) (hcomma : ¬ N (.symbol .comma)) :
    Steady N (expressions part) :=
  Steady.commaList (expression_local h 0) ((h.expression 0).mono hstops) hcomma

theorem groupBy?_steady (hstops : ∀ k, N k → k.stops 0 = true)
    (hN : ¬ N (.keyword .group) ∧ ¬ N (.keyword .having) ∧ ¬ N (.symbol .comma)) :
    Steady N (groupBy? part) := by
  refine Steady.clause ?_ (steady_pure _) hN.1
  exact Steady.keyword_bind (Steady.bind (expressions_local h) (expressions_steady h hstops hN.2.2)
    fun es => (clause?_steady h hstops hN.2.1).map)

omit h in
theorem source_steady : Steady (· ∈ .symbol .comma :: .symbol .semicolon :: behindSources) source := by
  intro c d ks s hread hm _
  obtain ⟨ks', hm', hsource⟩ := source_takes hread
  obtain rfl := hm.kinds_unique hm'
  exact source_reads hsource

omit h in
theorem distinct_steady (hN : ¬ N (.keyword .distinct) ∧ ¬ N (.keyword .all)) : Steady N distinct :=
  Steady.clause (steady_pure _) (steady_skip (steady_pure _) hN.2) hN.1

/-- Behind the groups of a query it does not matter which token follows. -/
theorem body_steady : Steady (· ∈ .symbol .semicolon :: behindGroup) (body r part) := by
  have hsource : ∀ k ∈ .symbol .semicolon :: behindGroup,
      k ∈ .symbol .comma :: .symbol .semicolon :: behindSources := by decide
  have hstops : ∀ k ∈ .symbol .semicolon :: behindGroup, k.stops 0 = true := by decide
  refine Steady.keyword_bind (Steady.bind (.of_tracks fun L n m => distinct_tracks)
    (distinct_steady (by decide)) fun distinct => ?_)
  refine Local.bind_keyword (.of_tracks fun L n m =>
    Lockstep.tracks_commaList (selectItem_tracks (h.tracks L (n + 1) (m + 1)))) fun items => ?_
  refine Steady.bind (.of_tracks fun L n m => Lockstep.tracks_commaList source_tracks)
    (Steady.commaList (.of_tracks fun L n m => source_tracks) (source_steady.mono hsource) (by decide))
    fun sources => ?_
  refine Steady.bind (clause?_local h .where) (clause?_steady h hstops (by decide)) fun condition => ?_
  exact (groupBy?_steady h hstops (by decide)).map

omit h in
theorem setOperator?_steady (hN : ∀ k, N k → k ≠ .keyword .all ∧ k ≠ .keyword .union ∧
    k ≠ .keyword .intersect ∧ k ≠ .keyword .minus ∧ k ≠ .keyword .except) : Steady N setOperator? := by
  intro c d ks operator hread hm _
  have htakes := setOperator?_takes hread
  cases operator with
  | none =>
    obtain rfl : d = c := htakes
    obtain rfl := hm.kinds_unique (.refl _)
    exact setOperator?_absent fun k hk => (hN k hk).2
  | some operator =>
    obtain ⟨ks', hm', hoperator⟩ := htakes
    obtain rfl := hm.kinds_unique hm'
    exact (setOperator?_reads hoperator).weaken fun k hk => (hN k hk).1

theorem joinedQuery_steady (hquery : Steady N part.query) (hN : ¬ N (.symbol .leftParen)) :
    Steady N (joinedQuery part) := by
  intro c d ks q hread hm hd c' d' hm' hd'
  have hparen : c'.current.kind = .symbol .leftParen ↔ c.current.kind = .symbol .leftParen := by
    rw [hm'.current, hm.current]
    cases ks with
    | nil => exact iff_of_false (fun heq => hN (heq ▸ hd')) fun heq => hN (heq ▸ hd)
    | cons => rfl
  have henclosed : Steady N (enclosedQuery part) :=
    Steady.symbol_bind (Local.bind_symbol (query_local h) fun q => steady_pure q)
  rw [joinedQuery, kind_bind] at hread ⊢
  split at hread
  · rename_i hk
    rw [if_pos (hparen.mpr hk)]
    exact henclosed hread hm hd hm' hd'
  · rename_i hk
    rw [if_neg fun heq => hk (hparen.mp heq)]
    exact hquery hread hm hd hm' hd'

/-- What stands behind the groups of a query is read alike before every token that may stand behind the
    query. -/
theorem tail_steady (hquery : Steady (· ∈ behindQuery) part.query) (q : Query Expr) :
    Steady (· ∈ behindQuery) (tail part q) := by
  have hstops : ∀ k ∈ behindQuery, k.stops 0 = true := by decide
  have hset : Steady (· ∈ behindQuery) (setOperation? part) := by
    refine Steady.bind (.of_tracks fun L n m => setOperator?_tracks) (setOperator?_steady (by decide))
      fun operator => ?_
    cases operator with
    | none => exact steady_pure _
    | some => exact (joinedQuery_steady h hquery (by decide)).map
  have hentry : Steady (· ∈ behindQuery) (orderEntry part) :=
    Steady.bind (expression_local h 0) ((h.expression 0).mono hstops) fun e =>
      Steady.clause (steady_pure _) (steady_skip (steady_pure _) (by decide)) (by decide)
  have horder : Steady (· ∈ behindQuery) (orderBy part) :=
    Steady.clause (Steady.keyword_bind (Steady.commaList (.of_tracks fun L n m =>
      orderEntry_tracks (h.tracks L (n + 1) (m + 1))) hentry (by decide))) (steady_pure _) (by decide)
  have hlock : Steady (· ∈ behindQuery) forUpdate :=
    Steady.clause (Steady.keyword_bind (steady_pure _)) (steady_pure _) (by decide)
  refine Steady.bind (.of_tracks fun L n m => setOperation?_tracks (h.tracks L (n + 1) (m + 1))) hset
    fun set => ?_
  exact Steady.bind (.of_tracks fun L n m => orderBy_tracks (h.tracks L (n + 1) (m + 1))) horder
    fun order => hlock.map

theorem query_steady (hquery : Steady (· ∈ behindQuery) part.query) :
    Steady (· ∈ behindQuery) (query r part) := by
  have hfollow : ∀ k ∈ behindQuery, k ∈ .symbol .semicolon :: behindGroup := by decide
  rw [query_eq]
  exact Steady.bind (body_local h) ((body_steady h).mono hfollow) (tail_steady h hquery)

end

theorem readersOfDepth_query_steady (r : Registry) (depth : Nat) :
    Steady (· ∈ behindQuery) (readersOfDepth r depth).query := by
  induction depth with
  | zero => exact fun c d ks q hread => absurd hread (by simp [readersOfDepth, unexpected_ok])
  | succ depth ih => exact query_steady (readersOfDepth_loose r depth) ih

theorem readers_query_steady (r : Registry) : Steady (· ∈ behindQuery) (readers r).query := by
  intro c d ks q hread hm hd c' d' hm' hd'
  -- Readers of one depth that is enough for both places.
  have hdepth {c : Cursor} {depth : Nat} (h : c.ahead.length ≤ depth) :
      (readersOfDepth r depth).query c = (readers r).query c :=
    eq_of_agree ((readersOfDepth_tracks_readers r _ _).query rfl trivial h (Nat.le_refl _))
  rw [← hdepth (Nat.le_max_left c.ahead.length c'.ahead.length)] at hread
  rw [← hdepth (Nat.le_max_right c.ahead.length c'.ahead.length)]
  exact readersOfDepth_query_steady r _ hread hm hd hm' hd'

theorem readers_loose (r : Registry) : (readers r).Loose where
  tracks _ _ _ := readers_tracks r _ _
  takes power _ _ _ h := readersOfDepth_takes r _ power h
  expression := readers_expression_loose r

end Grammar

/-- The row of tokens is read as the query where nothing else stands. -/
structure QueryByItself (r : Registry) (ks : List Token.Kind) (q : Query Expr) : Prop where
  read : ∃ c : Cursor, c.kinds = ks ∧ (Grammar.statement? r c).1 = .ok (some (.query q))
  semicolon : .symbol .semicolon ∉ ks
  eof : .eof ∉ ks

namespace Grammar

open Reading Token Kind

variable {r : Registry} {ks ks' set order lock : List Kind} {q q' : Query Expr} {L M N : Kind → Prop}

/-! ## Queries that stand by themselves -/

theorem statement_query {c d : Cursor} (h : statement r c = (.ok (.query q), d)) :
    (readers r).query c = (.ok q, d) := by
  rw [statement, kind_bind] at h
  split at h
  · obtain ⟨q', e, hquery, hpure⟩ := bind_ok.mp h
    obtain ⟨heq, rfl⟩ := pure_ok.mp hpure
    cases heq
    exact hquery
  iterate 4
    obtain ⟨_, _, -, hpure⟩ := bind_ok.mp h
    cases (pure_ok.mp hpure).1
  split at h
  · obtain ⟨_, _, -, hpure⟩ := bind_ok.mp h
    cases (pure_ok.mp hpure).1
  · split at h
    · obtain ⟨_, _, -, hpure⟩ := bind_ok.mp h
      cases (pure_ok.mp hpure).1
    · exact absurd h (by simp [unexpected_ok])

theorem queryByItself_ends (h : QueryByItself r ks q) :
    ∃ c d, (readers r).query c = (.ok q, d) ∧ c.Moves ks d ∧ d.current.kind = .eof := by
  obtain ⟨⟨c, rfl, hread⟩, hsemicolon, heof⟩ := h
  obtain ⟨c₁, c₂, h₁, h₂, h₃⟩ := statement?_parts (Prod.ext hread rfl)
  have hstart : c.current.kind ≠ .symbol .semicolon := by
    intro hkind
    exact hsemicolon (by rw [(Cursor.current_moves hkind (by simp)).kinds]; simp)
  rw [emptyStatements_other hstart] at h₁
  cases h₁
  have hquery := statement_query h₂
  obtain ⟨ks, hm⟩ := moved hquery
  obtain ⟨hkind, hrest⟩ := terminator_at_end h₃ hm hsemicolon heof
  exact ⟨c, c₂, hquery, by rwa [hm.kinds, hrest, List.append_nil], hkind⟩

/-- What stands by itself as a query is read so before all tokens that may stand behind a query. -/
theorem queryByItself_reads (h : QueryByItself r ks q) :
    Reads (readers r).query (· ∈ behindQuery) ks q := by
  obtain ⟨c, d, hread, hm, hkind⟩ := queryByItself_ends h
  exact readers_query_steady r hread hm (by rw [hkind]; decide)

/-- A query with nothing behind its groups is read up to there before all tokens that may stand there. -/
theorem body_reads (h : QueryByItself r ks q) (hq : q.IsBody) :
    Reads (body r (readers r)) (· ∈ .symbol .semicolon :: behindGroup) ks q := by
  obtain ⟨c, d, hread, hm, hkind⟩ := queryByItself_ends h
  rw [query_readers, query_eq] at hread
  obtain ⟨q', e, hbody, htail⟩ := bind_ok.mp hread
  obtain ⟨rfl, rfl⟩ := tail_isBody htail (body_isBody hbody) hq
  exact body_steady (readers_loose r) hbody hm (by rw [hkind]; decide)

/-- A query with something behind its groups. -/
theorem query_reads_tail {o : Option (Operation Expr)} {os : List (OrderBy Expr)} {l : Bool}
    (h : QueryByItself r ks q) (hq : q.IsBody)
    (hset : Resumes (setOperation? (readers r)) (· ∈ .symbol .semicolon :: behindGroup) L set o)
    (horder : Resumes (orderBy (readers r)) L M order os) (hlock : Resumes forUpdate M N lock l) :
    Reads (readers r).query N (ks ++ (set ++ (order ++ lock)))
      { q with setOperation := o, orderBy := os, forUpdate := l } := by
  rw [query_readers, query_eq]
  exact (body_reads h hq).resume (hset.resume (horder.resume hlock.map))

/-! ## Chains -/

/-- A set operator with the query behind it. -/
structure Link where
  words : List Kind
  operator : String
  row : List Kind
  query : Query Expr

/-- The tokens of a set operator and of the query behind it, without parentheses. -/
def Link.tokens (link : Link) : List Kind := link.words ++ link.row

/-- A set operator with a query behind it that ends with its groups. -/
structure Link.IsBare (r : Registry) (link : Link) : Prop where
  operator : Rule.SetOperator link.words link.operator
  query : QueryByItself r link.row link.query
  body : link.query.IsBody

/-- The query joined with another one. -/
def joinWith (q : Query Expr) (operator : String) (other : Query Expr) : Query Expr :=
  { q with setOperation := some ⟨operator, [.query other], false⟩ }

/-- A chain of queries, nested to the right, with something done to the last one. -/
def nest (last : Query Expr → Query Expr) (q : Query Expr) : List Link → Query Expr
  | [] => last q
  | link :: links => joinWith q link.operator (nest last link.query links)

/-- The first words of the set operators. -/
def setWords : List Kind := [.keyword .union, .keyword .intersect, .keyword .minus, .keyword .except]

/-- What may stand behind a chain. -/
def behindChain : List Kind := behindStatement ++ setWords

/-- A query joined with one that has been read without parentheses. -/
theorem joined_reads {behind words : List Kind} {operator : String}
    (hbehind : ∀ k ∈ behind, k ∈ behindChain) (h : QueryByItself r ks q) (hq : q.IsBody)
    (hoperator : Rule.SetOperator words operator) (hother : Reads (readers r).query (· ∈ behind) ks' q') :
    Reads (readers r).query (· ∈ behind) (ks ++ (words ++ ks')) (joinWith q operator q') := by
  have hfollow : ∀ k ∈ behindChain, k ≠ .keyword .order ∧ k ≠ .keyword .for := by decide
  have horder : Resumes (orderBy (readers r)) (· ∈ behind) (· ∈ behind) [] [] :=
    resumes_without (reads_pure _) fun k hk => ⟨hk, (hfollow k (hbehind k hk)).1⟩
  have hlock : Resumes forUpdate (· ∈ behind) (· ∈ behind) [] false :=
    resumes_without (reads_pure _) fun k hk => ⟨hk, (hfollow k (hbehind k hk)).2⟩
  have hread := query_reads_tail h hq (setOperation?_resumes (.bare hoperator hother)) horder hlock
  have hsame : ({ q with
      setOperation := some ⟨operator, [.query q'], false⟩
      orderBy := []
      forUpdate := false } : Query Expr) = joinWith q operator q' := by
    rw [joinWith, hq.orderBy, hq.forUpdate]
  rw [hsame] at hread
  simpa using hread

/-- The last query of a chain takes the order and the lock behind it. -/
theorem last_reads {os : List (OrderBy Expr)} {l : Bool} (horder : Rule.Order (.placed r) order os)
    (hlock : Rule.ForUpdate lock l) (h : QueryByItself r ks q) (hq : q.IsBody) :
    Reads (readers r).query (· ∈ behindStatement) (ks ++ (order ++ lock))
      { q with orderBy := os, forUpdate := l } := by
  have hset : Resumes (setOperation? (readers r)) (· ∈ .symbol .semicolon :: behindGroup)
      (· ∈ .symbol .semicolon :: behindSet) [] none :=
    ⟨by decide, setOperation?_absent (by decide)⟩
  have horder := orderBy_resumes (M := (· ∈ .symbol .semicolon :: behindSet))
    (N := (· ∈ .symbol .semicolon :: behindOrder)) horder (by decide) (by decide)
  have hlock := forUpdate_resumes (M := (· ∈ .symbol .semicolon :: behindOrder))
    (N := (· ∈ behindStatement)) hlock (by decide) (by decide)
  have hread := query_reads_tail h hq hset horder hlock
  rwa [← hq.setOperation] at hread

/-- A query joined with one between parentheses takes the order and the lock behind these. -/
theorem last_reads_enclosed {words inner : List Kind} {operator : String} {os : List (OrderBy Expr)} {l : Bool}
    (hoperator : Rule.SetOperator words operator) (hinner : QueryByItself r inner q')
    (horder : Rule.Order (.placed r) order os) (hlock : Rule.ForUpdate lock l)
    (h : QueryByItself r ks q) (hq : q.IsBody) :
    Reads (readers r).query (· ∈ behindChain)
      (ks ++ (words ++ (.symbol .leftParen :: inner ++ [.symbol .rightParen]) ++ (order ++ lock)))
      { joinWith q operator q' with orderBy := os, forUpdate := l } := by
  have hjoined : Joined r (.symbol .semicolon :: behindGroup) _ _ :=
    .enclosed hoperator (.mk (queryByItself_reads hinner))
  have horder := orderBy_resumes (M := (· ∈ .symbol .semicolon :: behindGroup))
    (N := (· ∈ .keyword .for :: behindChain)) horder (by decide) (by decide)
  have hlock := forUpdate_resumes (M := (· ∈ .keyword .for :: behindChain))
    (N := (· ∈ behindChain)) hlock (by decide) (by decide)
  have hread := query_reads_tail h hq (setOperation?_resumes hjoined) horder hlock
  exact hread

/-- A chain is read from its last query on. -/
theorem nest_reads {behind row : List Kind} {last : Query Expr → Query Expr} {links : List Link}
    (hbehind : ∀ k ∈ behind, k ∈ behindChain)
    (hlast : ∀ {ks q}, QueryByItself r ks q → q.IsBody →
      Reads (readers r).query (· ∈ behind) (ks ++ row) (last q))
    (hlinks : ∀ link ∈ links, link.IsBare r) (h : QueryByItself r ks q) (hq : q.IsBody) :
    Reads (readers r).query (· ∈ behind) (ks ++ (links.flatMap Link.tokens ++ row)) (nest last q links) := by
  induction links generalizing ks q with
  | nil => exact hlast h hq
  | cons link links ih =>
    obtain ⟨hoperator, hquery, hbody⟩ := hlinks link (List.mem_cons_self ..)
    have hrest := ih (fun link hlink => hlinks link (List.mem_cons_of_mem _ hlink)) hquery hbody
    rw [nest]
    simpa [Link.tokens] using joined_reads hbehind h hq hoperator hrest

theorem statement_reads_query (h : Reads (readers r).query N ks q) :
    Reads (statement r) N ks (.query q) := by
  intro c d hm hd
  have hselect := query_starts (h hm hd)
  rw [statement, kind_bind, hselect]
  exact h.map hm hd

/-- Where a statement is read and not ended, the token behind it is not what is asked for. -/
theorem statement?_unterminated {c d : Cursor} {s : Statement} (h : statement r c = (.ok s, d))
    (hsemicolon : d.current.kind ≠ .symbol .semicolon) (heof : d.current.kind ≠ .eof) :
    statement? r c =
      (.error (.malformed (.unexpected .terminator d.current.kind) d.current.span), d) := by
  obtain ⟨hstart, hend, hexit⟩ := statement_starts h
  have hterminator : terminator d =
      (.error (.malformed (.unexpected .terminator d.current.kind) d.current.span), d) := by
    have haccept : acceptSymbol .semicolon d = (.ok false, d) :=
      acceptSymbol_ok.mpr (.inr ⟨rfl, hsemicolon, rfl⟩)
    rw [terminator, bind_apply, haccept]
    dsimp only
    rw [if_neg (by simp), kind_bind, if_neg heof]
    rfl
  rw [statement?, bind_apply, emptyStatements_other hstart]
  dsimp only
  rw [kind_bind, if_neg hend, if_neg (by simp [hexit]), bind_apply, h]
  dsimp only
  rw [bind_apply, hterminator]

/-- Queries that end with their groups, joined by set operators without parentheses, are read as a chain
    that nests to the right, and only the last of them takes the ORDER BY and FOR UPDATE behind it. Behind
    a query between parentheses the query before its operator takes these, and a set operator there is
    an error. -/
theorem set_chains (r : Registry) (first order lock rest : List Kind) (q : Query Expr) (links : List Link)
    (os : List (OrderBy Expr)) (l : Bool) (c : Cursor) (hfirst : QueryByItself r first q) (hq : q.IsBody)
    (hlinks : ∀ link ∈ links, link.IsBare r) (horder : Rule.Order (.placed r) order os)
    (hlock : Rule.ForUpdate lock l) :
    (c.kinds = first ++ links.flatMap Link.tokens ++ order ++ lock ++ rest →
      rest = [] ∨ rest.head? = some (.symbol .semicolon) →
      (statement? r c).1 =
        .ok (some (.query (nest (fun q => { q with orderBy := os, forUpdate := l }) q links)))) ∧
    ∀ words operator inner q', Rule.SetOperator words operator → QueryByItself r inner q' →
      c.kinds = first ++ links.flatMap Link.tokens ++ words ++
        (.symbol .leftParen :: inner ++ [.symbol .rightParen]) ++ order ++ lock ++ rest →
      (rest = [] ∨ rest.head? = some (.symbol .semicolon) →
        (statement? r c).1 = .ok (some (.query (nest
          (fun q => { joinWith q operator q' with orderBy := os, forUpdate := l }) q links)))) ∧
      ∀ k ∈ rest.head?, k ∈ setWords → ∃ d, d.kinds = rest ∧
        c.Reaches d ∧ (statement? r c).1 = .error (.malformed (.unexpected .terminator k) d.current.span) := by
  refine ⟨fun hc hrest => ?_, fun words operator inner q' hoperator hinner hc => ?_⟩
  · have hread := nest_reads (by decide) (last_reads horder hlock) hlinks hfirst hq
    exact statement?_reads (statement_reads_query hread) (by simpa using hc) hrest
  · have hread := statement_reads_query
      (nest_reads (fun _ hk => hk) (last_reads_enclosed hoperator hinner horder hlock) hlinks hfirst hq)
    have hc : c.kinds = first ++ (links.flatMap Link.tokens ++
        (words ++ (.symbol .leftParen :: inner ++ [.symbol .rightParen]) ++ (order ++ lock))) ++ rest := by
      simpa using hc
    refine ⟨statement?_reads (hread.weaken (by decide)) hc, fun k hk hword => ?_⟩
    obtain ⟨rest, rfl⟩ := List.head?_eq_some_iff.mp hk
    obtain ⟨d, hm, hd⟩ := Cursor.exists_moves hc
    have hkind : d.current.kind = k := by rw [Cursor.current_kind, hd, List.headD_cons]
    have hother : ∀ k ∈ setWords, k ∈ behindChain ∧ k ≠ .symbol .semicolon ∧ k ≠ .eof := by decide
    obtain ⟨hchain, hsemicolon, heof⟩ := hother k hword
    obtain rfl : k = d.current.kind := hkind.symm
    rw [statement?_unterminated (hread hm hchain) hsemicolon heof]
    exact ⟨d, hd, hm.imp fun _ h => h.1, rfl⟩

theorem set_chains_joined :
    ∃ q : Query Expr, q.IsBody ∧
      (statement? Registry.builtin (Cursor.ofText
          "select a from t union select a from t order by a for update")).1 =
        .ok (some (.query (joinWith q Operator.union
          { q with orderBy := [⟨.column "a", true⟩], forUpdate := true }))) ∧
      (statement? Registry.builtin (Cursor.ofText
          "select a from t except (select a from t) order by a for update;")).1 =
        .ok (some (.query { joinWith q Operator.except q with
          orderBy := [⟨.column "a", true⟩], forUpdate := true })) ∧
      ∃ place, (statement? Registry.builtin (Cursor.ofText
          "select a from t except (select a from t) order by a for update minus select a from t")).1 =
        .error (.malformed (.unexpected .terminator (.keyword .minus)) place) := by
  let ks : List Kind := [.keyword .select, .name "a", .keyword .from, .name "t"]
  let q : Query Expr := ⟨false, [SelectItem.column "a"], [QualifiedName.ofText "t" .table], none, none, none,
    [], false⟩
  have hq : q.IsBody := ⟨rfl, rfl, rfl⟩
  have hfirst : QueryByItself Registry.builtin ks q :=
    ⟨⟨Cursor.ofText "select a from t", by decide +kernel, rfl⟩, by decide, by decide⟩
  have ha : ByItself Registry.builtin [.name "a"] (.column "a") :=
    ⟨⟨Cursor.ofText "a", by decide +kernel, rfl⟩, by decide, by decide, by decide⟩
  have hentry : Rule.Entry (.placed Registry.builtin) ([.name "a"] ++ []) ⟨.column "a", true⟩ :=
    .mk ha .ascending
  have hchain (links : List Link) (hlinks : ∀ link ∈ links, link.IsBare Registry.builtin) (rest : List Kind)
      (c : Cursor) := set_chains Registry.builtin ks
    [.keyword .order, .keyword .by, .name "a"] [.keyword .for, .keyword .update] rest q links _ _ c hfirst hq
    hlinks (.some (.one hentry)) .some
  refine ⟨q, hq, ?_, ?_, ?_⟩
  · have hunion : ∀ link ∈ [(⟨[.keyword .union], Operator.union, ks, q⟩ : Link)],
        link.IsBare Registry.builtin := by simpa using ⟨.union, hfirst, hq⟩
    exact (hchain _ hunion [] _).1 (by decide +kernel) (.inl rfl)
  · exact ((hchain [] nofun [.symbol .semicolon] _).2 _ _ _ _ .except hfirst (by decide +kernel)).1 (.inr rfl)
  · have hminus := ((hchain [] nofun (.keyword .minus :: ks) (Cursor.ofText
        "select a from t except (select a from t) order by a for update minus select a from t")).2 _ _ _ _
      .except hfirst (by decide +kernel)).2
    obtain ⟨d, -, -, herror⟩ := hminus (.keyword .minus) rfl (by decide)
    exact ⟨d.current.span, herror⟩

end Grammar

end SqlFront
