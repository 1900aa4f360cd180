import SqlFront.Proofs.Operands

/-! # What stands behind an expression

A reading depends on the tokens it takes in and the kind of the token behind them, and on nothing else.
For an expression that token matters even less: all tokens with which no expression goes on are the
same to it. Main statement: an expression that has been read with one of them behind it is read from
the same tokens before every other one.
-/

namespace SqlFront

namespace Lockstep

open Reading

/-- The same kinds are ahead up to two places where tokens of the same kind stand. Behind the first
    one nothing is compared. -/
def upTo {d d' : Cursor} (h : d.current.kind = d'.current.kind) : Lockstep where
  rel c c' := ∃ ks, c.Moves ks d ∧ c'.Moves ks d'
  escaped c := ∃ ks, ks ≠ [] ∧ d.Moves ks c
  place _ _ := True
  fault _ _ := True
  escaped_reaches := by
    rintro c e ⟨ks, hne, hm⟩ ⟨tokens, hpass⟩
    exact ⟨_, by simp [hne], hm.trans hpass.moves⟩
  current := by
    rintro c c' ⟨ks, hm, hm'⟩
    exact .inl (by rw [hm.current, hm'.current, h])
  span _ := trivial
  merge _ _ := trivial
  fault_refl _ := trivial
  unexpected _ _ := trivial
  advance := by
    rintro c c' ⟨ks, hm, hm'⟩ hinner
    cases ks with
    | nil =>
      obtain rfl := Cursor.moves_nil.mp hm
      exact .inl ⟨_, by simp, Cursor.moves_advance (ne_eof_of_inner hinner)⟩
    | cons k ks =>
      obtain ⟨e, hm, hrest⟩ := hm.cons
      obtain ⟨e', hm', hrest'⟩ := hm'.cons
      exact .inr ⟨ks, hm.advance ▸ hrest, hm'.advance ▸ hrest'⟩

end Lockstep

namespace Reading

open Token

variable {α β σ : Type} {p : Reading α} {f : α → Reading β} {a : α} {b : β} {k : Kind}
  {ks ks' : List Kind} {c d e : Cursor} {M N : Kind → Prop}

/-- What is read is decided by the tokens that are taken in and the kind of the one behind them. -/
def Local (p : Reading α) : Prop :=
  ∀ ⦃c d ks a⦄, p c = (.ok a, d) → c.Moves ks d → Reads p (· = d.current.kind) ks a

/-- What is read does not depend on which token stands behind it, among those of a class. -/
def Steady (N : Kind → Prop) (p : Reading α) : Prop :=
  ∀ ⦃c d ks a⦄, p c = (.ok a, d) → c.Moves ks d → N d.current.kind → Reads p N ks a

/-- What is read does not depend on which token stands behind it, among those with which no
    expression goes on. -/
def Loose (p : Reading α) : Prop := Steady (·.stops 0 = true) p

theorem Steady.mono (h : Steady M p) (hN : ∀ k, N k → M k) : Steady N p :=
  fun _ _ _ _ hread hm hd => (h hread hm (hN _ hd)).weaken hN

theorem moved (h : p c = (.ok a, d)) : ∃ ks, c.Moves ks d := by
  obtain ⟨ks, hm⟩ := p.moves c
  rw [h] at hm
  exact ⟨ks, hm⟩

/-- A reading that keeps in step with itself is decided by the tokens up to its end. -/
theorem Local.of_tracks (h : ∀ (L : Lockstep) n m, L.Tracks (n + 1) (m + 1) p p) : Local p := by
  intro c d ks a hread hm c' d' hm' hkind
  have hagree := h (.upTo hkind.symm) c.ahead.length c'.ahead.length ⟨ks, hm, hm'⟩ trivial
    (Nat.le_succ _) (Nat.le_succ _)
  rw [hread] at hagree
  rcases hread' : p c' with ⟨x, e⟩
  rw [hread'] at hagree
  obtain ⟨more, hne, hm⟩ | ⟨hsame, more, hm, hm'⟩ := hagree
  · have hm : d.Moves more d := hm
    have hlength := hm.length
    have hpos := List.length_pos_iff.mpr hne
    omega
  · obtain rfl := hm.kinds_unique (.refl d)
    obtain rfl := Cursor.moves_nil.mp hm'
    cases x with
    | error => exact hsame.elim
    | ok a' =>
      obtain rfl : a = a' := hsame
      rfl

/-- Tokens that have been taken in before a given one. -/
theorem Local.before (hp : Local p) (h : p c = (.ok a, d)) (hm : d.Moves (k :: ks) e) :
    ∃ ks, c.Moves ks d ∧ Reads p (· = k) ks a := by
  obtain ⟨ks, hfirst⟩ := moved h
  exact ⟨ks, hfirst, hm.current_cons ▸ hp h hfirst⟩

/-- A token that is passed is passed again wherever one of its kind stands. -/
theorem reads_accept_again {test : Kind → Bool} (heof : test .eof = false)
    (hk : test c.current.kind = true) (hm : c.Moves ks c.advance) (N : Kind → Prop) :
    Reads (accept test) N ks true := by
  have hne : c.current.kind ≠ .eof := fun heq => by simp [heq, heof] at hk
  obtain rfl := hm.kinds_unique (Cursor.moves_advance hne)
  intro c' d' hm' _
  exact accept_ok.mpr (.inl ⟨rfl, hm'.current_cons ▸ hk, hm'.advance⟩)

theorem local_accept {test : Kind → Bool} (heof : test .eof = false) : Local (accept test) := by
  intro c d ks b h hm
  obtain ⟨rfl, hk, rfl⟩ | ⟨rfl, hk, rfl⟩ := accept_ok.mp h
  · exact reads_accept_again heof hk hm _
  · obtain rfl := hm.kinds_unique (.refl _)
    intro c' d' hm' hd'
    obtain rfl := Cursor.moves_nil.mp hm'
    exact accept_ok.mpr (.inr ⟨rfl, hd' ▸ hk, rfl⟩)

/-! ## Readings behind one another -/

theorem Local.bind (hp : Local p) (hf : ∀ a, Local (f a)) : Local (p >>= f) := by
  intro c d ks b h hm
  obtain ⟨a, e, hfirst, hrest⟩ := bind_ok.mp h
  obtain ⟨ks', hm'⟩ := moved hfirst
  obtain ⟨ks'', hm''⟩ := moved hrest
  obtain rfl := hm.kinds_unique (hm'.trans hm'')
  refine (hp hfirst hm').bind (hf a hrest hm'') ?_
  rintro _ rfl
  exact hm''.current.symm

/-- The first reading stands before the second one, or at the end if the second takes in nothing. -/
theorem Steady.bind_at (hlocal : Local p) (hp : Steady N p) (h : p c = (.ok a, e)) (hm : c.Moves ks e)
    (hm' : e.Moves ks' d) (hd : N d.current.kind) (hf : Reads (f a) N ks' b) :
    Reads (p >>= f) N (ks ++ ks') b := by
  cases ks' with
  | nil =>
    obtain rfl := Cursor.moves_nil.mp hm'
    exact (hp h hm hd).bind hf fun _ hk => hk
  | cons k ks' => exact (hlocal h hm).bind hf fun _ _ => hm'.current_cons.symm

theorem Steady.bind (hlocal : Local p) (hp : Steady N p) (hf : ∀ a, Steady N (f a)) :
    Steady N (p >>= f) := by
  intro c d ks b h hm hd
  obtain ⟨a, e, hfirst, hrest⟩ := bind_ok.mp h
  obtain ⟨ks', hm'⟩ := moved hfirst
  obtain ⟨ks'', hm''⟩ := moved hrest
  obtain rfl := hm.kinds_unique (hm'.trans hm'')
  exact Steady.bind_at hlocal hp hfirst hm' hm'' hd (hf a hrest hm'' hd)

theorem steady_pure (a : α) : Steady N (pure a) := by
  intro c d ks b h hm _
  obtain ⟨rfl, rfl⟩ := pure_ok.mp h
  obtain rfl := hm.kinds_unique (.refl _)
  exact reads_pure a

theorem Steady.map {g : α → β} (hp : Steady N p) : Steady N (p >>= fun a => pure (g a)) := by
  intro c d ks b h hm hd
  obtain ⟨a, e, hfirst, hrest⟩ := bind_ok.mp h
  obtain ⟨rfl, rfl⟩ := pure_ok.mp hrest
  exact (hp hfirst hm hd).map

theorem Steady.symbol_bind {sign : Symbol} {f : Unit → Reading β} (hf : Steady N (f ())) :
    Steady N (symbol sign >>= f) := by
  intro c d ks b h hm hd
  obtain ⟨_, e, hsign, hrest⟩ := bind_ok.mp h
  obtain ⟨ks', hm'⟩ := moved hrest
  obtain rfl := hm.kinds_unique ((symbol_ok.mp hsign).trans hm')
  exact reads_symbol_bind (hf hrest hm' hd)

theorem Steady.keyword_bind {word : Keyword} {f : Unit → Reading β} (hf : Steady N (f ())) :
    Steady N (keyword word >>= f) := by
  intro c d ks b h hm hd
  obtain ⟨_, e, hword, hrest⟩ := bind_ok.mp h
  obtain ⟨ks', hm'⟩ := moved hrest
  obtain rfl := hm.kinds_unique ((keyword_ok.mp hword).trans hm')
  exact reads_keyword_bind (hf hrest hm' hd)

/-- What is read before a sign never stands at the end. -/
theorem Local.bind_symbol {sign : Symbol} {f : α → Unit → Reading β} (hp : Local p)
    (hf : ∀ a, Steady N (f a ())) : Steady N (p >>= fun a => symbol sign >>= f a) := by
  intro c d ks b h hm hd
  obtain ⟨a, e, hfirst, hrest⟩ := bind_ok.mp h
  obtain ⟨_, g, hsign, hlast⟩ := bind_ok.mp hrest
  have hsign := symbol_ok.mp hsign
  obtain ⟨ks', hm', hread⟩ := hp.before hfirst hsign
  obtain ⟨ks'', hm''⟩ := moved hlast
  obtain rfl := hm.kinds_unique (hm'.trans (hsign.trans hm''))
  exact hread.bind (reads_symbol_bind (hf a hlast hm'' hd)) fun _ _ => rfl

/-- What is read before a reserved word never stands at the end. -/
theorem Local.bind_keyword {word : Keyword} {f : α → Unit → Reading β} (hp : Local p)
    (hf : ∀ a, Steady N (f a ())) : Steady N (p >>= fun a => keyword word >>= f a) := by
  intro c d ks b h hm hd
  obtain ⟨a, e, hfirst, hrest⟩ := bind_ok.mp h
  obtain ⟨_, g, hword, hlast⟩ := bind_ok.mp hrest
  have hword := keyword_ok.mp hword
  obtain ⟨ks', hm', hread⟩ := hp.before hfirst hword
  obtain ⟨ks'', hm''⟩ := moved hlast
  obtain rfl := hm.kinds_unique (hm'.trans (hword.trans hm''))
  exact hread.bind (reads_keyword_bind (hf a hlast hm'' hd)) fun _ _ => rfl

/-- A token that may be missing is not one that may stand behind. -/
theorem steady_accept {test : Kind → Bool} (heof : test .eof = false)
    (hN : ∀ k, N k → test k = false) : Steady N (accept test) := by
  intro c d ks b h hm hd
  obtain ⟨rfl, hk, rfl⟩ | ⟨rfl, -, rfl⟩ := accept_ok.mp h
  · exact reads_accept_again heof hk hm N
  · obtain rfl := hm.kinds_unique (.refl _)
    intro c' d' hm' hd'
    obtain rfl := Cursor.moves_nil.mp hm'
    exact accept_ok.mpr (.inr ⟨rfl, hN _ hd', rfl⟩)

theorem steady_acceptKeyword {word : Keyword} (hN : ¬ N (.keyword word)) :
    Steady N (acceptKeyword word) :=
  steady_accept rfl fun _ hk => beq_eq_false_iff_ne.mpr fun heq => hN (heq ▸ hk)

/-- Where a token is looked at and passed, what follows decides. -/
theorem Steady.passed {f : Kind → Reading β} {g : Unit → Reading β} (hg : Steady N (g ()))
    (hk : c.current.kind = k) (hne : k ≠ .eof) (h : (Reading.advance >>= g) c = (.ok b, d))
    (hm : c.Moves ks d) (hd : N d.current.kind)
    (hf : f k = Reading.advance >>= g := by rfl) : Reads (kind >>= f) N ks b := by
  rw [advance_bind] at h
  obtain ⟨ks', hm'⟩ := moved h
  obtain rfl := hm.kinds_unique ((Cursor.current_moves hk hne).trans hm')
  exact reads_kind_bind (hf ▸ reads_advance_bind (hg h hm' hd))

theorem Steady.iterate {step : σ → Reading (ForInStep σ)} (hlocal : ∀ s, Local (step s))
    (hstep : ∀ s, Steady N (step s)) (hprogress : Progress step) (s : σ) :
    Steady N (iterate step s) := by
  intro c d ks t h hm hd
  induction hlength : c.ahead.length using Nat.strongRecOn generalizing s c ks with
  | ind n ih =>
    rw [iterate_eq hprogress] at h ⊢
    obtain ⟨turn, e, hturn, hrest⟩ := bind_ok.mp h
    obtain ⟨ks', hm'⟩ := moved hturn
    obtain ⟨ks'', hm''⟩ := moved hrest
    obtain rfl := hm.kinds_unique (hm'.trans hm'')
    refine Steady.bind_at (hlocal s) (hstep s) hturn hm' hm'' hd ?_
    cases turn with
    | done u => exact steady_pure u hrest hm'' hd
    | yield u => exact ih _ (hlength ▸ hprogress hturn) u hrest hm'' rfl

end Reading

/-- Parts that keep in step with themselves, take in something for every expression, and read it alike
    whatever stands behind it, if no expression goes on with that. -/
structure Readers.Loose (part : Readers) : Prop where
  tracks : ∀ (L : Lockstep) n m, L.TracksParts n m part part
  takes : ∀ power, (part.expression power).Takes fun ks _ => ks ≠ []
  expression : ∀ power, (part.expression power).Loose

namespace Grammar

open Reading Token Kind

variable {registry : Registry} {part : Readers}

section

variable (h : part.Loose)

include h

theorem expressions_local : Local (expressions part) :=
  .of_tracks fun L n m => Lockstep.Tracks.at (expressions_tracks (h.tracks L (n + 1) (m + 1)))

theorem query_local : Local part.query :=
  .of_tracks fun L n m => (h.tracks L (n + 1) (m + 1)).query

theorem enclosedQuery_loose : Loose (enclosedQuery part) :=
  Steady.symbol_bind (Local.bind_symbol (query_local h) fun q => steady_pure q)

theorem arguments_local : Local (arguments part) :=
  .of_tracks fun L n m => arguments_tracks (h.tracks L (n + 1) (m + 1))

/-- What stands between parentheses is read again whatever stands behind them. -/
theorem reads_enclosed_again {c d : Cursor} {e : Expr} {ks : List Kind}
    (hread : enclosed part c = (.ok e, d)) (hm : c.Moves ks d) (N : Kind → Prop) :
    Reads (primary registry part) N ks e := by
  have hnext {c₁ c₂ c₃ : Cursor} {ks : List Kind} (h₁ : c.Moves [.symbol .leftParen] c₁)
      (hm : c₁.Moves ks c₂) (h₃ : c₂.Moves [.symbol .rightParen] c₃) :
      c.advance.current.kind = ks.headD (.symbol .rightParen) := by
    rw [h₁.advance, hm.current, h₃.current_cons]
  rw [enclosed, nextKind_bind] at hread
  split at hread
  · rename_i hselect
    simp only [enclosedQuery, bind_ok, symbol_ok, pure_ok] at hread
    obtain ⟨_, _, ⟨_, c₁, h₁, q, c₂, h₂, _, c₃, h₃, rfl, rfl⟩, rfl, rfl⟩ := hread
    obtain ⟨ks', hm', hquery⟩ := (query_local h).before h₂ h₃
    obtain rfl := hm.kinds_unique ((h₁.trans hm').trans h₃)
    exact primary_reads_query hquery (hnext h₁ hm' h₃ ▸ hselect)
  · rename_i hselect
    simp only [bind_ok, symbol_ok] at hread
    obtain ⟨_, c₁, h₁, es, c₂, h₂, _, c₃, h₃, hread⟩ := hread
    obtain ⟨_, -, hes⟩ := expressions_takes part.follow_trivial h₂
    obtain ⟨ks', hm', hlist⟩ := (expressions_local h).before h₂ h₃
    have hmove := (h₁.trans hm').trans h₃
    have hother : ks'.headD (.symbol .rightParen) ≠ .keyword .select := hnext h₁ hm' h₃ ▸ hselect
    split at hread
    · obtain ⟨rfl, rfl⟩ := pure_ok.mp hread
      obtain rfl := hm.kinds_unique hmove
      exact primary_reads_enclosed hlist hother (.inl rfl)
    · obtain ⟨rfl, rfl⟩ := pure_ok.mp hread
      obtain rfl := hm.kinds_unique hmove
      exact primary_reads_enclosed hlist hother (.inr ⟨hes.two_le ‹_›, rfl⟩)

/-- A call is read again whatever stands behind it. -/
theorem reads_call_again {c d : Cursor} {name : String} {place : Span} {e : Expr} {ks : List Kind}
    (hread : callRest registry part name place c = (.ok e, d)) (hm : c.Moves ks d)
    (N : Kind → Prop) : Reads (primary registry part) N (.name name :: ks) e := by
  rw [callRest] at hread
  split at hread
  · exact absurd hread (by simp [failAt_ok])
  · rename_i arity harity
    simp only [bind_ok, symbol_ok] at hread
    obtain ⟨_, c₁, h₁, args, c₂, h₂, _, c₃, h₃, hread⟩ := hread
    obtain ⟨ks', hm', hargs⟩ := (arguments_local h).before h₂ h₃
    split at hread
    · rename_i haccepts
      obtain ⟨rfl, rfl⟩ := pure_ok.mp hread
      obtain rfl := hm.kinds_unique ((h₁.trans hm').trans h₃)
      exact call_reads harity haccepts hargs
    · exact absurd hread (by simp [lastSpan_bind, failAt_ok])

theorem primary_loose : Loose (primary registry part) := by
  intro c d ks e hread hm hd
  rw [primary, kind_bind] at hread
  split at hread
  · exact Steady.passed (steady_pure _) ‹_› (by simp) hread hm hd
  · exact Steady.passed (steady_pure _) ‹_› (by simp) hread hm hd
  · exact Steady.passed (steady_pure _) ‹_› (by simp) hread hm hd
  · exact Steady.passed (steady_pure _) ‹_› (by simp) hread hm hd
  · exact Steady.passed (enclosedQuery_loose h).map ‹_› (by simp) hread hm hd
  · exact reads_enclosed_again h hread hm _
  · rename_i name hname
    have hfirst := Cursor.current_moves hname (by simp)
    rw [span_bind, advance_bind, kind_bind] at hread
    split at hread
    · obtain ⟨ks', hm'⟩ := moved hread
      obtain rfl := hm.kinds_unique (hfirst.trans hm')
      exact reads_call_again h hread hm' _
    · obtain ⟨ks', hm', t, rfl, hcolumn⟩ := columnRest_takes name hread
      obtain rfl := hm.kinds_unique (hfirst.trans hm')
      exact (column_reads hcolumn).weaken fun _ => apart_of_stops
  · exact absurd hread (by simp [unexpected_ok])

theorem operand_loose : Loose (operand registry part) := by
  intro c d ks e hread hm hd
  rw [operand, kind_bind] at hread
  split at hread
  · exact Steady.passed (h.expression _).map ‹_› (by simp) hread hm hd
  · exact Steady.passed (h.expression _).map ‹_› (by simp) hread hm hd
  · exact Steady.passed (g := fun _ => part.expression Power.signOperand) (h.expression _) ‹_› (by simp)
      hread hm hd
  · exact operand_reads_primary (primary_loose h hread hm hd)

theorem comparand_loose (power : Nat) : Loose (comparand part power) := by
  intro c d ks e hread hm hd
  rw [comparand, kind_bind] at hread
  split at hread
  · exact Steady.passed (enclosedQuery_loose h).map ‹_› (by simp) hread hm hd
  · exact Steady.passed (enclosedQuery_loose h).map ‹_› (by simp) hread hm hd
  · exact Steady.passed (enclosedQuery_loose h).map ‹_› (by simp) hread hm hd
  · have hexpression := h.expression power hread hm hd
    obtain ⟨ks', hm', hne⟩ := h.takes power hread
    obtain rfl := hm.kinds_unique hm'
    obtain ⟨k, ks, rfl⟩ := List.exists_cons_of_ne_nil hne
    intro c' d' hm' hd'
    have hk : c'.current.kind = c.current.kind := hm'.current_cons.trans hm.current_cons.symm
    rw [comparand, kind_bind, hk]
    split <;> first
      | contradiction
      | exact hexpression hm' hd'

theorem expression_local (power : Nat) : Local (part.expression power) :=
  .of_tracks fun L n m => (h.tracks L (n + 1) (m + 1)).expression power

theorem candidates_local : Local (candidates part) :=
  .of_tracks fun L n m => candidates_tracks (h.tracks L (n + 1) (m + 1))

theorem testOf_loose (left : Expr) (negated : Bool) : Loose (testOf part left negated) := by
  intro c d ks e hread hm hd
  rw [testOf, kind_bind] at hread
  have hlast := (h.expression Power.testOperand)
  split at hread
  · refine Steady.passed ?_ ‹_› (by simp) hread hm hd
    exact Steady.bind (expression_local h _) hlast fun low => Steady.keyword_bind hlast.map
  · exact Steady.passed hlast.map ‹_› (by simp) hread hm hd
  · refine Steady.passed ?_ ‹_› (by simp) hread hm hd
    exact Steady.symbol_bind (Local.bind_symbol (candidates_local h) fun es => steady_pure _)
  · exact absurd hread (by simp [unexpected_ok])

theorem test_loose (left : Expr) : Loose (test part left) :=
  Steady.bind (local_accept rfl) (steady_acceptKeyword (by decide)) (testOf_loose h left)

omit h in
theorem reads_nullTest_again {c d : Cursor} {left e : Expr} {ks : List Kind}
    (hk : c.current.kind = .keyword .is) (hread : nullTest left c = (.ok e, d)) (hm : c.Moves ks d)
    (N : Kind → Prop) : Reads (nullTest left) N ks e := by
  obtain ⟨ks', hm', hrule⟩ := nullTest_takes hk hread
  obtain rfl := hm.kinds_unique hm'
  cases hrule with
  | plain => exact nullTest_reads left false
  | negative => exact nullTest_reads left true

theorem chainStep_loose (power : Nat) (chain : Chain) : Loose (chainStep part power chain) := by
  intro c d ks turn hread hm hd
  have hturn := chainStep_takes part.follow_trivial hread
  cases turn with
  | done last =>
    obtain ⟨rfl, rfl⟩ := hturn
    obtain rfl := hm.kinds_unique (.refl _)
    intro c' d' hm' hd'
    obtain rfl := Cursor.moves_nil.mp hm'
    exact chainStep_stops last (stops_mono (Nat.zero_le power) hd')
  | yield next =>
    obtain ⟨ks', hm', hlink⟩ := hturn
    obtain rfl := hm.kinds_unique hm'
    obtain ⟨k, ks, rfl⟩ := List.exists_cons_of_ne_nil hlink.ne_nil
    obtain ⟨c₁, hfirst, hrest⟩ := hm.cons
    refine reads_kind_bind ?_
    rw [chainStep, kind_bind, hm.current_cons] at hread
    cases hp : Power.of? k with
    | none => simp [hp, pure_ok] at hread
    | some p =>
      simp only [hp] at hread ⊢
      split at hread
      · simp [pure_ok] at hread
      · rename_i hpower
        rw [if_neg hpower]
        cases ho : p.continuation with
        | nullTest =>
          simp only [ho] at hread ⊢
          obtain ⟨e, d, h₁, h₂⟩ := bind_ok.mp hread
          obtain ⟨hnext, rfl⟩ := pure_ok.mp h₂
          cases hnext
          exact (reads_nullTest_again (hm.current_cons.trans (Power.of?_nullTest hp ho)) h₁ hm _).map
        | test =>
          simp only [ho] at hread ⊢
          exact (test_loose h chain.expr).map hread hm hd
        | comparison operator =>
          simp only [ho] at hread ⊢
          split at hread
          · exact absurd hread (by simp [span_bind, failAt_ok])
          · rename_i hcompared
            rw [if_neg hcompared]
            rw [advance_bind, hfirst.advance] at hread
            exact reads_advance_bind ((comparand_loose h p.right).map hread hrest hd)
        | chain operator =>
          simp only [ho] at hread ⊢
          rw [advance_bind, hfirst.advance] at hread
          exact reads_advance_bind ((h.expression p.right).map hread hrest hd)

theorem expression_loose (power : Nat) : Loose (expression registry part power) :=
  Steady.bind (.of_tracks fun L n m => operand_tracks (h.tracks L n m)) (operand_loose h) fun first =>
    (Steady.iterate (fun chain => .of_tracks fun L n m => chainStep_tracks (h.tracks L n m) power chain)
      (chainStep_loose h power) (chainStep_progress part power) ⟨first, none, false⟩).map

end

/-! ## Readers of any depth -/

theorem operand_ne_nil {rules : Rules} {ks : List Kind} {e : Expr}
    (h : Rule.Operand registry rules ks e) : ks ≠ [] := by
  cases h with
  | not | minus | plus => simp
  | primary h =>
    cases h with
    | subquery h | group h | list h =>
      cases h
      simp
    | column h =>
      obtain ⟨n, rest, rfl, -⟩ := column_cons h
      simp
    | number | string | null | placeholder | «exists» | call => simp

/-- Readers of any depth keep in step with themselves, even where they are not deep enough. -/
theorem readersOfDepth_tracks_self (r : Registry) (depth : Nat) (L : Lockstep) (n m : Nat) :
    L.TracksParts n m (readersOfDepth r depth) (readersOfDepth r depth) := by
  induction depth generalizing n m with
  | zero => exact ⟨fun _ => Lockstep.tracks_unexpected _, Lockstep.tracks_unexpected _⟩
  | succ depth ih =>
    exact ⟨fun power => (expression_tracks (ih n m) power).mono (Nat.le_succ n) (Nat.le_succ m)
        fun _ h => h,
      (query_tracks (ih n m)).mono (Nat.le_succ n) (Nat.le_succ m) fun _ h => h⟩

theorem readersOfDepth_takes (r : Registry) (depth power : Nat) :
    ((readersOfDepth r depth).expression power).Takes fun ks _ => ks ≠ [] := by
  have hfollow : (readersOfDepth r depth).Follow ⟨fun _ ks _ => ks ≠ [], fun _ _ => True⟩ := by
    refine readersOfDepth_follow ?_ (fun _ _ _ => trivial) depth
    rintro power _ _ ⟨hfirst, -⟩
    simp [operand_ne_nil hfirst]
  exact hfollow.expression power

theorem readersOfDepth_loose (r : Registry) (depth : Nat) : (readersOfDepth r depth).Loose := by
  induction depth with
  | zero =>
    exact ⟨readersOfDepth_tracks_self r 0, readersOfDepth_takes r 0,
      fun power c d ks e hread => absurd hread (by simp [readersOfDepth, unexpected_ok])⟩
  | succ depth ih =>
    exact ⟨readersOfDepth_tracks_self r _, readersOfDepth_takes r _, expression_loose ih⟩

/-- An expression that is read is read from the same tokens before all tokens with which no expression
    goes on. -/
theorem readers_expression_loose (r : Registry) (power : Nat) :
    Loose ((readers r).expression power) := by
  intro c d ks e hread hm hd c' d' hm' hd'
  -- Readers of one depth that is enough for both places.
  have hdepth {c : Cursor} {depth : Nat} (h : c.ahead.length ≤ depth) :
      (readersOfDepth r depth).expression power c = (readers r).expression power c :=
    eq_of_agree ((readersOfDepth_tracks_readers r _ _).expression power rfl trivial h (Nat.le_refl _))
  rw [← hdepth (Nat.le_max_left c.ahead.length c'.ahead.length)] at hread
  rw [← hdepth (Nat.le_max_right c.ahead.length c'.ahead.length)]
  exact (readersOfDepth_loose r _).expression power hread hm hd hm' hd'

theorem readers_expression_local (r : Registry) (power : Nat) :
    Local ((readers r).expression power) :=
  .of_tracks fun _ _ _ => (readers_tracks r _ _).expression power

end Grammar

end SqlFront
