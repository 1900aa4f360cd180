import SqlFront.Proofs.Takes

/-! # Readings in lockstep

Two runs of a reading from different places go the same way as long as the tokens ahead of both are of
the same kinds, where a semicolon in one of them may stand for the end of the other. `Lockstep` says
which places are compared and what may be said of their errors; a run may escape from the comparison
and then is not bound to anything. The parts of the two readings may be of different depths, as long as
both are deep enough. Main statements: every rule of expressions and queries keeps in step, and the
depth of readers does not matter, so that `readers` are what they read their parts with.
-/

namespace SqlFront

namespace Token.Kind

/-- Kinds behind a statement. -/
inductive Ends : Kind → Prop
  | eof : Ends .eof
  | semicolon : Ends (.symbol .semicolon)

/-- Kinds of which statements are made. -/
def inner : Kind → Bool
  | .eof | .symbol .semicolon | .invalid _ => false
  | _ => true

theorem Ends.not_inner {k : Kind} (h : k.Ends) : k.inner = false := by
  cases h <;> rfl

/-- The same kind, or what ends a statement on both sides. -/
def Alike (k k' : Kind) : Prop := k = k' ∨ k.Ends ∧ k'.Ends

theorem Alike.ends {k k' : Kind} (h : Alike k k') (hk : k.Ends) : k'.Ends := by
  obtain rfl | ⟨-, hk'⟩ := h
  · exact hk
  · exact hk'

theorem Alike.symm {k k' : Kind} (h : Alike k k') : Alike k' k :=
  h.imp Eq.symm And.symm

theorem Alike.eq {k k' : Kind} (h : Alike k k') (hk : k.inner = true) : k = k' := by
  obtain rfl | ⟨hk', -⟩ := h
  · rfl
  · simp [hk'.not_inner] at hk

end Token.Kind

/-- Pairs of places from which readings go the same way. -/
structure Lockstep where
  /-- The places compared. -/
  rel : Cursor → Cursor → Prop
  /-- The places at which the first run is no longer compared. -/
  escaped : Cursor → Prop
  /-- The spans that errors may have. -/
  place : Span → Span → Prop
  /-- The faults that errors may have. -/
  fault : Fault → Fault → Prop
  escaped_reaches : ∀ {c d}, escaped c → c.Reaches d → escaped d
  current : ∀ {c c'}, rel c c' → c.current.kind.Alike c'.current.kind
  span : ∀ {c c'}, rel c c' → place c.current.span c'.current.span
  merge : ∀ {s s' t t'}, place s s' → place t t' → place (s.merge t) (s'.merge t')
  fault_refl : ∀ f, fault f f
  unexpected : ∀ {c c'}, rel c c' → ∀ expected,
    fault (.unexpected expected c.current.kind) (.unexpected expected c'.current.kind)
  advance : ∀ {c c'}, rel c c' → c.current.kind.inner = true →
    escaped c.advance ∨ rel c.advance c'.advance

namespace Lockstep

variable {α β σ : Type} {L : Lockstep}

/-- Errors of the same sort, with faults and places that belong together. -/
inductive SameError (L : Lockstep) : ReadError → ReadError → Prop
  | malformed {f f' s s'} : L.fault f f' → L.place s s' →
      SameError L (.malformed f s) (.malformed f' s')
  | noInput : SameError L .noInput .noInput
  | unreadable (reason) : SameError L (.unreadable reason) (.unreadable reason)

/-- Equal values, or errors that belong together. -/
def Same (L : Lockstep) : Except ReadError α → Except ReadError α → Prop
  | .ok a, .ok a' => a = a'
  | .error e, .error e' => L.SameError e e'
  | _, _ => False

/-- The first run has escaped, or both end alike. -/
def Agree (L : Lockstep) (x x' : Except ReadError α × Cursor) : Prop :=
  L.escaped x.2 ∨ L.Same x.1 x'.1 ∧ L.rel x.2 x'.2

/-- Both readings end alike from all places that belong together, if the token there is as described
    and there are at most `n` and `m` tokens ahead. -/
def TracksFrom (L : Lockstep) (P : Token.Kind → Prop) (n m : Nat) (p p' : Reading α) : Prop :=
  ∀ ⦃c c'⦄, L.rel c c' → P c.current.kind → c.ahead.length ≤ n → c'.ahead.length ≤ m →
    L.Agree (p c) (p' c')

/-- Both readings end alike, whatever the token they start from. -/
abbrev Tracks (L : Lockstep) (n m : Nat) (p p' : Reading α) : Prop :=
  L.TracksFrom (fun _ => True) n m p p'

variable {n m : Nat} {P : Token.Kind → Prop} {p p' : Reading α} {f f' : α → Reading β}

theorem TracksFrom.mono (h : L.TracksFrom P n m p p') {n' m' : Nat} {Q : Token.Kind → Prop}
    (hn : n' ≤ n) (hm : m' ≤ m) (hQ : ∀ k, Q k → P k) : L.TracksFrom Q n' m' p p' :=
  fun _ _ hrel hk hc hc' => h hrel (hQ _ hk) (Nat.le_trans hc hn) (Nat.le_trans hc' hm)

theorem Tracks.at (h : L.Tracks n m p p') : L.TracksFrom P n m p p' :=
  h.mono (Nat.le_refl n) (Nat.le_refl m) fun _ _ => trivial

theorem length_le {c d : Cursor} (h : c.Reaches d) : d.ahead.length ≤ c.ahead.length := by
  obtain ⟨tokens, h⟩ := h
  have := h.moves.length
  omega

theorem Agree.ok {a : α} {c c' : Cursor} (h : L.rel c c') :
    L.Agree (.ok a, c) (.ok a, c') :=
  .inr ⟨rfl, h⟩

theorem Agree.malformed {f f' : Fault} {s s' : Span} {c c' : Cursor} (h : L.rel c c')
    (hf : L.fault f f') (hs : L.place s s') :
    L.Agree (α := α) (.error (.malformed f s), c) (.error (.malformed f' s'), c') :=
  .inr ⟨.malformed hf hs, h⟩

/-- A run that has escaped stays so. -/
theorem agree_of_escaped {c : Cursor} {x' : Except ReadError α × Cursor} (p : Reading α)
    (h : L.escaped c) : L.Agree (p c) x' :=
  .inl (L.escaped_reaches h (p.forward c))

theorem TracksFrom.bind (h : L.TracksFrom P n m p p') (hf : ∀ a, L.Tracks n m (f a) (f' a)) :
    L.TracksFrom P n m (p >>= f) (p' >>= f') := by
  intro c c' hrel hk hc hc'
  have hp := h hrel hk hc hc'
  have hlength := length_le (p.forward c)
  have hlength' := length_le (p'.forward c')
  rw [Reading.bind_apply, Reading.bind_apply]
  rcases hpc : p c with ⟨x, d⟩
  rcases hpc' : p' c' with ⟨x', d'⟩
  rw [hpc, hpc'] at hp
  change (p c).2.ahead.length ≤ _ at hlength
  change (p' c').2.ahead.length ≤ _ at hlength'
  rw [hpc] at hlength
  rw [hpc'] at hlength'
  obtain hescaped | ⟨hsame, hrel'⟩ := hp
  · cases x with
    | ok a => exact agree_of_escaped (f a) hescaped
    | error e => exact .inl hescaped
  · cases x with
    | ok a =>
      cases x' with
      | ok a' =>
        obtain rfl : a = a' := hsame
        exact hf a hrel' trivial (Nat.le_trans hlength hc) (Nat.le_trans hlength' hc')
      | error e' => exact hsame.elim
    | error e =>
      cases x' with
      | ok a' => exact hsame.elim
      | error e' => exact .inr ⟨hsame, hrel'⟩

theorem tracks_pure (a : α) : L.TracksFrom P n m (pure a) (pure a) :=
  fun _ _ hrel _ _ _ => .ok hrel

theorem tracks_unexpected (expected : Expected) :
    L.TracksFrom P n m (Reading.unexpected (α := α) expected) (Reading.unexpected expected) :=
  fun _ _ hrel _ _ _ => .malformed hrel (L.unexpected hrel expected) (L.span hrel)

theorem tracks_failAt (fault : Fault) {s s' : Span} (hs : L.place s s') :
    L.TracksFrom P n m (Reading.failAt (α := α) fault s) (Reading.failAt fault s') :=
  fun _ _ hrel _ _ _ => .malformed hrel (L.fault_refl fault) hs

/-- What is done at a token may not tell a semicolon from the end. -/
theorem tracks_kind_bind {f f' : Token.Kind → Reading β}
    (hend : f' (.symbol .semicolon) = f' .eof) (h : ∀ k, L.TracksFrom (· = k) n m (f k) (f' k)) :
    L.TracksFrom P n m (Reading.kind >>= f) (Reading.kind >>= f') := by
  intro c c' hrel _ hc hc'
  have hsame {k k' : Token.Kind} (h : k.Alike k') : f' k' = f' k := by
    obtain rfl | ⟨hk, hk'⟩ := h
    · rfl
    · cases hk <;> cases hk' <;> first
        | rfl
        | exact hend
        | exact hend.symm
  rw [Reading.kind_bind, Reading.kind_bind, hsame (L.current hrel)]
  exact h _ hrel rfl hc hc'

theorem tracks_span_bind {f f' : Span → Reading β}
    (h : ∀ s s', L.place s s' → L.TracksFrom P n m (f s) (f' s')) :
    L.TracksFrom P n m (Reading.span >>= f) (Reading.span >>= f') := by
  intro c c' hrel hk hc hc'
  exact h _ _ (L.span hrel) hrel hk hc hc'

/-- Behind a token that is not the end there is one token less ahead. -/
theorem length_advance {c : Cursor} (h : c.current.kind ≠ .eof) :
    c.ahead.length = c.advance.ahead.length + 1 := by
  have := (Cursor.moves_advance h).length
  simpa [Nat.add_comm] using this

/-- Where a token of a statement stands in one run, it stands in the other one too. -/
theorem current_eq {c c' : Cursor} (h : L.rel c c') (hk : c.current.kind.inner = true) :
    c.current.kind = c'.current.kind :=
  (L.current h).eq hk

theorem current_iff {c c' : Cursor} (h : L.rel c c') {k : Token.Kind} (hk : k.inner = true) :
    c.current.kind = k ↔ c'.current.kind = k := by
  constructor
  · rintro rfl
    exact ((L.current h).eq hk).symm
  · rintro rfl
    exact ((L.current h).symm.eq hk).symm

theorem ne_eof_of_inner {k : Token.Kind} (h : k.inner = true) : k ≠ .eof := by
  rintro rfl
  cases h

theorem tracks_advance_bind {k : Token.Kind} {f f' : Unit → Reading β} (hk : k.inner = true)
    (h : L.Tracks n m (f ()) (f' ())) :
    L.TracksFrom (· = k) (n + 1) (m + 1) (Reading.advance >>= f) (Reading.advance >>= f') := by
  intro c c' hrel hcurrent hc hc'
  rw [Reading.advance_bind, Reading.advance_bind]
  have hinner : c.current.kind.inner = true := hcurrent ▸ hk
  have hlength := length_advance (ne_eof_of_inner hinner)
  have hlength' := length_advance (current_eq hrel hinner ▸ ne_eof_of_inner hinner)
  obtain hescaped | hrel := L.advance hrel hinner
  · exact agree_of_escaped _ hescaped
  · exact h hrel trivial (by omega) (by omega)

theorem tracks_advance_then {k : Token.Kind} {f f' : Unit → Reading β} (hk : k.inner = true)
    (h : L.Tracks n m (f ()) (f' ())) :
    L.TracksFrom (· = k) n m (Reading.advance >>= f) (Reading.advance >>= f') := by
  refine TracksFrom.bind (fun c c' hrel hcurrent _ _ => ?_) fun _ => h
  have hinner : c.current.kind.inner = true := hcurrent ▸ hk
  exact (L.advance hrel hinner).imp id fun h => ⟨rfl, h⟩

section

variable {test : Token.Kind → Bool} (htest : ∀ k, test k = true → k.inner = true)

include htest

/-- A test for tokens of statements comes out alike on both sides. -/
theorem test_eq {c c' : Cursor} (h : L.rel c c') :
    test c.current.kind = test c'.current.kind := by
  obtain heq | ⟨hk, hk'⟩ := L.current h
  · rw [heq]
  · have hfalse {k : Token.Kind} (hk : k.Ends) : test k = false :=
      Bool.eq_false_iff.mpr fun htrue => by simpa [hk.not_inner] using htest k htrue
    rw [hfalse hk, hfalse hk']

/-- A token that is passed makes room for parts of less depth. -/
theorem tracks_accept_bind {f f' : Bool → Reading β} (htrue : L.Tracks n m (f true) (f' true))
    (hfalse : L.TracksFrom (fun k => P k ∧ test k = false) (n + 1) (m + 1) (f false) (f' false)) :
    L.TracksFrom P (n + 1) (m + 1) (Reading.accept test >>= f) (Reading.accept test >>= f') := by
  intro c c' hrel hk hc hc'
  have hsame := test_eq htest hrel
  cases hcurrent : test c.current.kind with
  | true =>
    have hinner := htest _ hcurrent
    have hlength := length_advance (ne_eof_of_inner hinner)
    have hlength' := length_advance (current_eq hrel hinner ▸ ne_eof_of_inner hinner)
    have hleft : (Reading.accept test >>= f) c = f true c.advance := by
      simp [Reading.bind_apply, Reading.accept, hcurrent]
    have hright : (Reading.accept test >>= f') c' = f' true c'.advance := by
      simp [Reading.bind_apply, Reading.accept, ← hsame, hcurrent]
    rw [hleft, hright]
    obtain hescaped | hrel := L.advance hrel hinner
    · exact agree_of_escaped _ hescaped
    · exact htrue hrel trivial (by omega) (by omega)
  | false =>
    have hleft : (Reading.accept test >>= f) c = f false c := by
      simp [Reading.bind_apply, Reading.accept, hcurrent]
    have hright : (Reading.accept test >>= f') c' = f' false c' := by
      simp [Reading.bind_apply, Reading.accept, ← hsame, hcurrent]
    rw [hleft, hright]
    exact hfalse hrel ⟨hk, hcurrent⟩ hc hc'

theorem tracks_accept : L.TracksFrom P n m (Reading.accept test) (Reading.accept test) := by
  intro c c' hrel _ _ _
  simp only [Reading.accept, ← test_eq htest hrel]
  split
  · exact (L.advance hrel (htest _ ‹_›)).imp id fun h => ⟨rfl, h⟩
  · exact .ok hrel

end

theorem inner_of_symbol {sign : Symbol} (h : (Token.Kind.symbol sign).inner = true) (k : Token.Kind)
    (hk : (k == .symbol sign) = true) : k.inner = true := by
  rw [beq_iff_eq.mp hk]
  exact h

theorem inner_of_keyword {word : Keyword} (k : Token.Kind) (hk : (k == .keyword word) = true) :
    k.inner = true := by
  rw [beq_iff_eq.mp hk]
  rfl

theorem inner_of_power {k : Token.Kind} {p : Power} (h : Power.of? k = some p) :
    k.inner = true := by
  cases k with
  | symbol sign => cases sign <;> first | rfl | cases h
  | eof | invalid => cases h
  | number | string | name | keyword => rfl

theorem inner_of_word {word : String} (k : Token.Kind) (hk : k.isWord word = true) :
    k.inner = true := by
  obtain ⟨text, rfl, -⟩ := Reading.isWord_iff.mp hk
  rfl

theorem tracks_acceptSymbol_bind {sign : Symbol} {f f' : Bool → Reading β}
    (hsign : (Token.Kind.symbol sign).inner = true) (htrue : L.Tracks n m (f true) (f' true))
    (hfalse : L.TracksFrom P (n + 1) (m + 1) (f false) (f' false)) :
    L.TracksFrom P (n + 1) (m + 1) (Reading.acceptSymbol sign >>= f)
      (Reading.acceptSymbol sign >>= f') :=
  tracks_accept_bind (inner_of_symbol hsign) htrue
    (hfalse.mono (Nat.le_refl _) (Nat.le_refl _) fun _ h => h.1)

theorem tracks_acceptKeyword_bind {word : Keyword} {f f' : Bool → Reading β}
    (htrue : L.Tracks n m (f true) (f' true))
    (hfalse : L.TracksFrom P (n + 1) (m + 1) (f false) (f' false)) :
    L.TracksFrom P (n + 1) (m + 1) (Reading.acceptKeyword word >>= f)
      (Reading.acceptKeyword word >>= f') :=
  tracks_accept_bind inner_of_keyword htrue
    (hfalse.mono (Nat.le_refl _) (Nat.le_refl _) fun _ h => h.1)

theorem tracks_acceptSymbol {sign : Symbol} (hsign : (Token.Kind.symbol sign).inner = true) :
    L.TracksFrom P n m (Reading.acceptSymbol sign) (Reading.acceptSymbol sign) :=
  tracks_accept (inner_of_symbol hsign)

theorem tracks_acceptKeyword (word : Keyword) :
    L.TracksFrom P n m (Reading.acceptKeyword word) (Reading.acceptKeyword word) :=
  tracks_accept inner_of_keyword

theorem tracks_acceptWord (word : String) :
    L.TracksFrom P n m (Reading.acceptWord word) (Reading.acceptWord word) :=
  tracks_accept inner_of_word

theorem tracks_symbol {sign : Symbol} (hsign : (Token.Kind.symbol sign).inner = true) :
    L.TracksFrom P n m (Reading.symbol sign) (Reading.symbol sign) := by
  refine (tracks_acceptSymbol hsign).bind fun b => ?_
  cases b
  · exact tracks_unexpected _
  · exact tracks_pure ()

theorem tracks_keyword (word : Keyword) :
    L.TracksFrom P n m (Reading.keyword word) (Reading.keyword word) := by
  refine (tracks_acceptKeyword word).bind fun b => ?_
  cases b
  · exact tracks_unexpected _
  · exact tracks_pure ()

theorem tracks_word (text : String) :
    L.TracksFrom P n m (Reading.word text) (Reading.word text) := by
  refine (tracks_acceptWord text).bind fun b => ?_
  cases b
  · exact tracks_unexpected _
  · exact tracks_pure ()

theorem tracks_symbol_bind {sign : Symbol} {f f' : Unit → Reading β}
    (hsign : (Token.Kind.symbol sign).inner = true) (h : L.Tracks n m (f ()) (f' ())) :
    L.TracksFrom P (n + 1) (m + 1) (Reading.symbol sign >>= f) (Reading.symbol sign >>= f') := by
  rw [Reading.symbol, Reading.bind_assoc, Reading.bind_assoc]
  exact tracks_acceptSymbol_bind hsign h (tracks_unexpected _)

theorem tracks_keyword_bind {word : Keyword} {f f' : Unit → Reading β}
    (h : L.Tracks n m (f ()) (f' ())) :
    L.TracksFrom P (n + 1) (m + 1) (Reading.keyword word >>= f) (Reading.keyword word >>= f') := by
  rw [Reading.keyword, Reading.bind_assoc, Reading.bind_assoc]
  exact tracks_acceptKeyword_bind h (tracks_unexpected _)

/-- Behind a sign the last token is that sign, which stands where both runs were. -/
theorem tracks_symbol_lastSpan {sign : Symbol} {f f' : Span → Reading β}
    (hsign : (Token.Kind.symbol sign).inner = true)
    (h : ∀ s s', L.place s s' → L.Tracks n m (f s) (f' s')) :
    L.TracksFrom P n m (Reading.symbol sign >>= fun _ => Reading.lastSpan >>= f)
      (Reading.symbol sign >>= fun _ => Reading.lastSpan >>= f') := by
  intro c c' hrel hk hc hc'
  by_cases hcurrent : c.current.kind = .symbol sign
  · have hcurrent' := (current_iff hrel hsign).mp hcurrent
    have hinner : c.current.kind.inner = true := hcurrent ▸ hsign
    rw [Reading.symbol_bind hcurrent, Reading.symbol_bind hcurrent', Reading.lastSpan_bind,
      Reading.lastSpan_bind, Cursor.lastSpan_advance (ne_eof_of_inner hinner),
      Cursor.lastSpan_advance (current_eq hrel hinner ▸ ne_eof_of_inner hinner)]
    obtain hescaped | hrel' := L.advance hrel hinner
    · exact agree_of_escaped _ hescaped
    · exact h _ _ (L.span hrel) hrel' trivial
        (Nat.le_trans (length_le (Cursor.reaches_advance c)) hc)
        (Nat.le_trans (length_le (Cursor.reaches_advance c')) hc')
  · have hcurrent' := mt (current_iff hrel hsign).mpr hcurrent
    rw [Reading.symbol_missing hcurrent, Reading.symbol_missing hcurrent']
    exact tracks_unexpected (P := fun _ => True) _ hrel trivial hc hc'

theorem tracks_name : L.TracksFrom P n m Reading.name Reading.name := by
  refine tracks_kind_bind rfl fun k => ?_
  cases k <;> first
    | exact tracks_advance_then rfl (tracks_pure _)
    | exact tracks_unexpected _

theorem tracks_iterate {step step' : σ → Reading (ForInStep σ)}
    (hstep : ∀ s, L.Tracks n m (step s) (step' s)) (hprogress : Reading.Progress step)
    (hprogress' : Reading.Progress step') (s : σ) :
    L.Tracks n m (Reading.iterate step s) (Reading.iterate step' s) := by
  intro c c' hrel _ hc hc'
  generalize hlength : c.ahead.length = k
  induction k using Nat.strongRecOn generalizing s c c' with
  | ind k ih =>
    have hturn := hstep s hrel trivial hc hc'
    have hshort' := length_le ((step' s).forward c')
    rw [Reading.iterate_eq hprogress, Reading.iterate_eq hprogress', Reading.bind_apply,
      Reading.bind_apply]
    change (step' s c').2.ahead.length ≤ _ at hshort'
    rcases hrun : step s c with ⟨x, d⟩
    rcases hrun' : step' s c' with ⟨x', d'⟩
    rw [hrun, hrun'] at hturn
    rw [hrun'] at hshort'
    obtain hescaped | ⟨hsame, hrel'⟩ := hturn
    · obtain e | t | t := x
      · exact .inl hescaped
      · exact .inl hescaped
      · exact agree_of_escaped _ hescaped
    · obtain e | turn := x <;> obtain e' | turn' := x'
      · exact .inr ⟨hsame, hrel'⟩
      · exact hsame.elim
      · exact hsame.elim
      · obtain rfl : turn = turn' := hsame
        cases turn with
        | done t => exact .ok hrel'
        | yield t =>
          have hless := hprogress hrun
          exact ih d.ahead.length (by omega) t hrel' (by omega) (Nat.le_trans hshort' hc') rfl

theorem tracks_commaList {item item' : Reading α} (h : L.Tracks n m item item') :
    L.Tracks n m (Reading.commaList item) (Reading.commaList item') := by
  refine TracksFrom.bind h fun first => tracks_iterate (fun items => ?_) ?_ ?_ [first]
  · refine (tracks_acceptSymbol rfl).bind fun b => ?_
    cases b
    · exact tracks_pure _
    · exact h.bind fun _ => tracks_pure _
  · exact Reading.progress_commaList item
  · exact Reading.progress_commaList item'

/-- The parts of both sides end alike. -/
structure TracksParts (L : Lockstep) (n m : Nat) (part part' : Readers) : Prop where
  expression : ∀ power, L.Tracks n m (part.expression power) (part'.expression power)
  query : L.Tracks n m part.query part'.query

end Lockstep

namespace Grammar

open Reading Lockstep

section

variable {L : Lockstep} {n m : Nat} {P : Token.Kind → Prop} {registry : Registry}
  {part part' : Readers} (h : L.TracksParts n m part part')

include h

theorem enclosedQuery_tracks :
    L.TracksFrom P (n + 1) (m + 1) (enclosedQuery part) (enclosedQuery part') :=
  tracks_symbol_bind rfl (h.query.bind fun _ => (tracks_symbol rfl).bind fun _ => tracks_pure _)

theorem expressions_tracks : L.Tracks n m (expressions part) (expressions part') :=
  tracks_commaList (h.expression 0)

theorem enclosed_tracks :
    L.TracksFrom (· = .symbol .leftParen) (n + 1) (m + 1) (enclosed part) (enclosed part') := by
  intro c c' hrel hk hc hc'
  rw [enclosed, enclosed, nextKind_bind, nextKind_bind]
  have hinner : c.current.kind.inner = true := by rw [hk]; rfl
  obtain hescaped | hrel' := L.advance hrel hinner
  · split
    · rw [enclosedQuery, bind_assoc, symbol_bind hk]
      exact agree_of_escaped _ hescaped
    · rw [symbol_bind hk]
      exact agree_of_escaped _ hescaped
  · simp only [current_iff hrel' (k := .keyword .select) rfl]
    split
    · exact TracksFrom.bind (enclosedQuery_tracks h (P := fun _ => True)) (fun _ => tracks_pure _)
        hrel trivial hc hc'
    · refine tracks_symbol_bind (P := fun _ => True) rfl ((expressions_tracks h).bind fun items =>
        (tracks_symbol rfl).bind fun _ => ?_) hrel trivial hc hc'
      split <;> exact tracks_pure _

theorem argument_tracks : L.Tracks n m (argument part) (argument part') := by
  refine (tracks_acceptSymbol rfl).bind fun b => ?_
  cases b
  · exact h.expression 0
  · exact tracks_pure _

theorem arguments_tracks : L.Tracks n m (arguments part) (arguments part') := by
  refine tracks_kind_bind rfl fun k => ?_
  split
  · exact tracks_pure _
  · exact (tracks_commaList (argument_tracks h)).at

omit h in
theorem columnRest_progress : Progress fun text : String => do
    if ← acceptSymbol .dot then
      if ← acceptSymbol .star then return .done (text ++ ".*")
      else return .yield (text ++ "." ++ (← name))
    else return .done text := by
  intro text c t d h
  simp only [↓acceptSymbol_ite, bind_ok, name_ok, pure_ok] at h
  obtain ⟨e, hm, ⟨_, -, heq, -⟩ | ⟨-, a, f, hm', -, rfl⟩⟩ | ⟨-, heq, -⟩ := h
  · cases heq
  · have := hm.length
    have := hm'.length
    simp only [List.length_cons, List.length_nil] at *
    omega
  · cases heq

omit h in
theorem columnRest_tracks (first : String) : L.Tracks n m (columnRest first) (columnRest first) := by
  refine (tracks_iterate (fun text => ?_) ?_ ?_ first).bind fun _ => tracks_pure _
  · refine (tracks_acceptSymbol rfl).bind fun b => ?_
    cases b
    · exact tracks_pure _
    · refine (tracks_acceptSymbol rfl).bind fun b => ?_
      cases b
      · exact tracks_name.bind fun _ => tracks_pure _
      · exact tracks_pure _
  · exact columnRest_progress
  · exact columnRest_progress

theorem callRest_tracks (name : String) {place place' : Span} (hplace : L.place place place') :
    L.Tracks n m (callRest registry part name place) (callRest registry part' name place') := by
  unfold callRest
  split
  · exact tracks_failAt _ hplace
  · rename_i arity _
    refine (tracks_symbol rfl).bind fun _ => (arguments_tracks h).bind fun args => ?_
    by_cases haccepts : arity.accepts args.length = true
    · simp only [haccepts, if_true]
      exact (tracks_symbol rfl).bind fun _ => tracks_pure _
    · simp only [haccepts]
      exact tracks_symbol_lastSpan rfl fun _ _ hs => tracks_failAt _ (L.merge hplace hs)

theorem primary_tracks :
    L.Tracks (n + 1) (m + 1) (primary registry part) (primary registry part') := by
  refine tracks_kind_bind rfl fun k => ?_
  split
  · exact tracks_advance_bind rfl (tracks_pure _)
  · exact tracks_advance_bind rfl (tracks_pure _)
  · exact tracks_advance_bind rfl (tracks_pure _)
  · exact tracks_advance_bind rfl (tracks_pure _)
  · exact tracks_advance_then rfl ((enclosedQuery_tracks h).bind fun _ => tracks_pure _)
  · exact enclosed_tracks h
  · refine tracks_span_bind fun s s' hs => tracks_advance_bind rfl ?_
    refine tracks_kind_bind rfl fun k => ?_
    split
    · exact (callRest_tracks h _ hs).at
    · exact (columnRest_tracks _).at
  · exact tracks_unexpected _

theorem operand_tracks :
    L.Tracks (n + 1) (m + 1) (operand registry part) (operand registry part') := by
  refine tracks_kind_bind rfl fun k => ?_
  split
  · exact tracks_advance_bind rfl ((h.expression _).bind fun _ => tracks_pure _)
  · exact tracks_advance_bind rfl ((h.expression _).bind fun _ => tracks_pure _)
  · exact tracks_advance_bind rfl (h.expression _)
  · exact (primary_tracks h).at

theorem comparand_tracks (power : Nat) :
    L.Tracks n m (comparand part power) (comparand part' power) := by
  have henclosed : L.Tracks n m (enclosedQuery part) (enclosedQuery part') :=
    (enclosedQuery_tracks h).mono (Nat.le_succ n) (Nat.le_succ m) fun _ h => h
  refine tracks_kind_bind rfl fun k => ?_
  split
  · exact tracks_advance_then rfl (henclosed.bind fun _ => tracks_pure _)
  · exact tracks_advance_then rfl (henclosed.bind fun _ => tracks_pure _)
  · exact tracks_advance_then rfl (henclosed.bind fun _ => tracks_pure _)
  · exact (h.expression power).at

theorem candidates_tracks : L.Tracks n m (candidates part) (candidates part') := by
  refine tracks_kind_bind rfl fun k => ?_
  split
  · exact TracksFrom.bind h.query.at fun _ => tracks_pure _
  · exact (expressions_tracks h).at

theorem testOf_tracks (left : Expr) (negated : Bool) :
    L.Tracks (n + 1) (m + 1) (testOf part left negated) (testOf part' left negated) := by
  refine tracks_kind_bind rfl fun k => ?_
  split
  · exact tracks_advance_bind rfl ((h.expression _).bind fun _ =>
      (tracks_keyword _).bind fun _ => (h.expression _).bind fun _ => tracks_pure _)
  · exact tracks_advance_bind rfl ((h.expression _).bind fun _ => tracks_pure _)
  · exact tracks_advance_bind rfl ((tracks_symbol rfl).bind fun _ =>
      (candidates_tracks h).bind fun _ => (tracks_symbol rfl).bind fun _ => tracks_pure _)
  · exact tracks_unexpected _

theorem test_tracks (left : Expr) :
    L.Tracks (n + 1) (m + 1) (test part left) (test part' left) :=
  (tracks_acceptKeyword _).bind (testOf_tracks h left)

omit h in
theorem nullTest_tracks {k : Token.Kind} (hk : k.inner = true) (left : Expr) :
    L.TracksFrom (· = k) n m (nullTest left) (nullTest left) :=
  tracks_advance_then hk ((tracks_acceptKeyword _).bind fun _ => (tracks_keyword _).bind fun _ =>
    tracks_pure _)

theorem chainStep_tracks (power : Nat) (chain : Chain) :
    L.Tracks (n + 1) (m + 1) (chainStep part power chain) (chainStep part' power chain) := by
  refine tracks_kind_bind rfl fun k => ?_
  split
  · exact tracks_pure _
  · rename_i p hp
    have hinner := inner_of_power hp
    split
    · exact tracks_pure _
    · split
      · exact (nullTest_tracks hinner _).bind fun _ => tracks_pure _
      · exact TracksFrom.bind (test_tracks h _).at fun _ => tracks_pure _
      · split
        · exact tracks_span_bind fun _ _ hs => tracks_failAt _ hs
        · exact tracks_advance_bind hinner ((comparand_tracks h _).bind fun _ => tracks_pure _)
      · exact tracks_advance_bind hinner ((h.expression _).bind fun _ => tracks_pure _)

omit h in
theorem chainStep_progress (part : Readers) (power : Nat) : Progress (chainStep part power) := by
  intro chain c next d hstep
  obtain ⟨ks, hm, hlink⟩ := chainStep_takes part.follow_trivial hstep
  have hlength := hm.length
  have hpos := List.length_pos_iff.mpr hlink.ne_nil
  omega

theorem expression_tracks (power : Nat) :
    L.Tracks (n + 1) (m + 1) (expression registry part power) (expression registry part' power) :=
  TracksFrom.bind (operand_tracks h) fun _ =>
    (tracks_iterate (chainStep_tracks h power) (chainStep_progress part power)
      (chainStep_progress part' power) _).bind fun _ => tracks_pure _

omit h in
theorem dottedName_progress : Progress fun text : String => do
    if ← acceptSymbol .dot then return .yield (text ++ "." ++ (← name)) else return .done text := by
  intro text c t d h
  simp only [↓acceptSymbol_ite, bind_ok, name_ok, pure_ok] at h
  obtain ⟨e, hm, a, f, hm', -, rfl⟩ | ⟨-, heq, -⟩ := h
  · have := hm.length
    have := hm'.length
    simp only [List.length_cons, List.length_nil] at *
    omega
  · cases heq

omit h in
theorem dottedName_tracks : L.Tracks n m dottedName dottedName := by
  refine tracks_name.bind fun first => ?_
  refine tracks_iterate (fun text => ?_) dottedName_progress dottedName_progress first
  refine (tracks_acceptSymbol rfl).bind fun b => ?_
  cases b
  · exact tracks_pure _
  · exact tracks_name.bind fun _ => tracks_pure _

omit h in
theorem name?_tracks : L.TracksFrom P n m name? name? := by
  refine tracks_kind_bind rfl fun k => ?_
  split
  · exact tracks_advance_then rfl (tracks_pure _)
  · exact tracks_pure _

omit h in
theorem optionalAlias_tracks : L.Tracks n m optionalAlias optionalAlias := by
  refine (tracks_acceptKeyword _).bind fun b => ?_
  cases b
  · exact name?_tracks
  · exact tracks_name.bind fun _ => tracks_pure _

omit h in
theorem source_tracks : L.Tracks n m source source := by
  refine dottedName_tracks.bind fun table => optionalAlias_tracks.bind fun a => ?_
  cases a <;> exact tracks_pure _

theorem selectItem_tracks :
    L.Tracks n m (selectItem registry part) (selectItem registry part') := by
  refine (tracks_acceptSymbol rfl).bind fun b => ?_
  cases b
  · refine (h.expression 0).bind fun e => optionalAlias_tracks.bind fun a => ?_
    cases a <;> exact tracks_pure _
  · exact tracks_pure _

theorem clause?_tracks (word : Keyword) :
    L.Tracks n m (clause? part word) (clause? part' word) := by
  refine (tracks_acceptKeyword _).bind fun b => ?_
  cases b
  · exact tracks_pure _
  · exact (h.expression 0).bind fun _ => tracks_pure _

theorem groupBy?_tracks : L.Tracks n m (groupBy? part) (groupBy? part') := by
  refine (tracks_acceptKeyword _).bind fun b => ?_
  cases b
  · exact tracks_pure _
  · exact (tracks_keyword _).bind fun _ => (expressions_tracks h).bind fun exprs =>
      (clause?_tracks h .having).bind fun _ => tracks_pure _

omit h in
theorem setOperator?_tracks : L.Tracks n m setOperator? setOperator? := by
  refine tracks_kind_bind rfl fun k => ?_
  split
  · refine tracks_advance_then rfl ((tracks_acceptKeyword _).bind fun b => ?_)
    cases b <;> exact tracks_pure _
  · exact tracks_advance_then rfl (tracks_pure _)
  · exact tracks_advance_then rfl (tracks_pure _)
  · exact tracks_advance_then rfl (tracks_pure _)
  · exact tracks_pure _

theorem joinedQuery_tracks : L.Tracks n m (joinedQuery part) (joinedQuery part') := by
  refine tracks_kind_bind rfl fun k => ?_
  split
  · exact (enclosedQuery_tracks h).mono (Nat.le_succ n) (Nat.le_succ m) fun _ h => h
  · exact h.query.at

theorem setOperation?_tracks : L.Tracks n m (setOperation? part) (setOperation? part') := by
  refine setOperator?_tracks.bind fun operator => ?_
  cases operator
  · exact tracks_pure _
  · exact (joinedQuery_tracks h).bind fun _ => tracks_pure _

theorem orderEntry_tracks : L.Tracks n m (orderEntry part) (orderEntry part') := by
  refine (h.expression 0).bind fun e => (tracks_acceptKeyword _).bind fun b => ?_
  cases b
  · exact TracksFrom.bind (TracksFrom.bind (tracks_acceptKeyword _) fun _ => tracks_pure ()) fun _ =>
      tracks_pure _
  · exact tracks_pure _

theorem orderBy_tracks : L.Tracks n m (orderBy part) (orderBy part') := by
  refine (tracks_acceptKeyword _).bind fun b => ?_
  cases b
  · exact tracks_pure _
  · exact (tracks_keyword _).bind fun _ => tracks_commaList (orderEntry_tracks h)

omit h in
theorem forUpdate_tracks : L.Tracks n m forUpdate forUpdate := by
  refine (tracks_acceptKeyword _).bind fun b => ?_
  cases b
  · exact tracks_pure _
  · exact (tracks_keyword _).bind fun _ => tracks_pure _

omit h in
theorem distinct_tracks : L.Tracks n m distinct distinct := by
  refine (tracks_acceptKeyword _).bind fun b => ?_
  cases b
  · exact TracksFrom.bind (TracksFrom.bind (tracks_acceptKeyword _) fun _ => tracks_pure ()) fun _ =>
      tracks_pure _
  · exact tracks_pure _

theorem query_tracks :
    L.Tracks (n + 1) (m + 1) (query registry part) (query registry part') :=
  tracks_keyword_bind <|
    distinct_tracks.bind fun _ =>
    (tracks_commaList (selectItem_tracks h)).bind fun _ =>
    (tracks_keyword _).bind fun _ =>
    (tracks_commaList source_tracks).bind fun _ =>
    (clause?_tracks h .where).bind fun _ =>
    (groupBy?_tracks h).bind fun _ =>
    (setOperation?_tracks h).bind fun _ =>
    (orderBy_tracks h).bind fun _ =>
    forUpdate_tracks.bind fun _ => tracks_pure _

end

section

variable {L : Lockstep} (registry : Registry)

/-- Where a statement ends no expression is found, whatever the parts. -/
theorem expression_at_end (part : Readers) (power : Nat) {c : Cursor} (h : c.current.kind.Ends) :
    expression registry part power c = (unexpected .expression : Reading Expr) c := by
  have hprimary : primary registry part c = (unexpected .expression : Reading Expr) c := by
    rw [primary, kind_bind]
    cases hk : c.current.kind <;> rw [hk] at h <;> cases h <;> rfl
  have hoperand : operand registry part c = primary registry part c := by
    rw [operand, kind_bind]
    cases hk : c.current.kind <;> rw [hk] at h <;> cases h <;> rfl
  rw [expression, bind_apply, hoperand, hprimary]
  rfl

/-- Where a statement ends no query is found, whatever the parts. -/
theorem query_at_end (part : Readers) {c : Cursor} (h : c.current.kind.Ends) :
    query registry part c = (unexpected (.keyword .select) : Reading (Query Expr)) c := by
  have hselect : keyword .select c = (unexpected (.keyword .select) : Reading Unit) c := by
    have hother : c.current.kind ≠ .keyword .select := fun heq => by cases heq ▸ h
    rw [keyword, bind_apply]
    simp [acceptKeyword, accept, hother]
  rw [query, bind_apply, hselect]
  rfl

/-- Readers of any two depths end alike where both are deep enough. -/
theorem readersOfDepth_tracks (n m : Nat) :
    L.TracksParts n m (readersOfDepth registry n) (readersOfDepth registry m) := by
  have hempty {c : Cursor} (h : c.ahead.length ≤ 0) : c.current.kind.Ends := by
    rw [Cursor.current, List.eq_nil_of_length_eq_zero (Nat.le_zero.mp h)]
    exact .eof
  induction n generalizing m with
  | zero =>
    cases m with
    | zero => exact ⟨fun _ => tracks_unexpected _, tracks_unexpected _⟩
    | succ m =>
      constructor
      · intro power c c' hrel hk hc hc'
        have hend : c'.current.kind.Ends := (L.current hrel).ends (hempty hc)
        change L.Agree _ (expression registry _ power c')
        rw [expression_at_end registry _ power hend]
        exact tracks_unexpected (P := fun _ => True) _ hrel hk hc hc'
      · intro c c' hrel hk hc hc'
        have hend : c'.current.kind.Ends := (L.current hrel).ends (hempty hc)
        change L.Agree _ (query registry _ c')
        rw [query_at_end registry _ hend]
        exact tracks_unexpected (P := fun _ => True) _ hrel hk hc hc'
  | succ n ih =>
    cases m with
    | zero =>
      constructor
      · intro power c c' hrel hk hc hc'
        have hend : c.current.kind.Ends := (L.current hrel).symm.ends (hempty hc')
        change L.Agree (expression registry _ power c) _
        rw [expression_at_end registry _ power hend]
        exact tracks_unexpected (P := fun _ => True) _ hrel hk hc hc'
      · intro c c' hrel hk hc hc'
        have hend : c.current.kind.Ends := (L.current hrel).symm.ends (hempty hc')
        change L.Agree (query registry _ c) _
        rw [query_at_end registry _ hend]
        exact tracks_unexpected (P := fun _ => True) _ hrel hk hc hc'
    | succ m => exact ⟨expression_tracks (ih m), query_tracks (ih m)⟩

/-- Readers of a given depth end like those that are deep enough. -/
theorem readersOfDepth_tracks_readers (n m : Nat) :
    L.TracksParts n m (readersOfDepth registry n) (readers registry) where
  expression power _ _ hrel hk hc _ :=
    (readersOfDepth_tracks registry _ _).expression power hrel hk hc (Nat.le_refl _)
  query _ _ hrel hk hc _ :=
    (readersOfDepth_tracks registry _ _).query hrel hk hc (Nat.le_refl _)

/-- Readers end alike, however many tokens are ahead of both. -/
theorem readers_tracks (n m : Nat) : L.TracksParts n m (readers registry) (readers registry) where
  expression power _ _ hrel hk _ _ :=
    (readersOfDepth_tracks registry _ _).expression power hrel hk (Nat.le_refl _) (Nat.le_refl _)
  query _ _ hrel hk _ _ :=
    (readersOfDepth_tracks registry _ _).query hrel hk (Nat.le_refl _) (Nat.le_refl _)

end

/-! ## The depth of readers -/

/-- A place compared with itself. -/
def sameCursor : Lockstep where
  rel c c' := c = c'
  escaped _ := False
  place s s' := s = s'
  fault f f' := f = f'
  escaped_reaches h _ := h
  current h := .inl (h ▸ rfl)
  span h := h ▸ rfl
  merge h h' := h ▸ h' ▸ rfl
  fault_refl _ := rfl
  unexpected h _ := h ▸ rfl
  advance h _ := .inr (h ▸ rfl)

theorem eq_of_agree {α : Type} {x x' : Except ReadError α × Cursor}
    (h : sameCursor.Agree x x') : x = x' := by
  obtain ⟨x, c⟩ := x
  obtain ⟨x', c'⟩ := x'
  obtain hescaped | ⟨hsame, rfl⟩ := h
  · exact hescaped.elim
  · obtain e | a := x <;> obtain e' | a' := x'
    · cases hsame with
      | malformed hfault hplace => rw [show _ = _ from hfault, show _ = _ from hplace]
      | noInput | unreadable => rfl
    · exact hsame.elim
    · exact hsame.elim
    · rw [show a = a' from hsame]

theorem agree_of_eq {α : Type} {x x' : Except ReadError α × Cursor} (h : x = x') :
    sameCursor.Agree x x' := by
  subst h
  refine .inr ⟨?_, rfl⟩
  obtain ⟨e | a, c⟩ := x
  · cases e with
    | malformed => exact .malformed rfl rfl
    | noInput => exact .noInput
    | unreadable => exact .unreadable _
  · rfl

/-- Expressions are read by their rule, with parts read in the same way. -/
theorem expression_readers (registry : Registry) (power : Nat) :
    (readers registry).expression power = expression registry (readers registry) power := by
  apply ext
  intro c
  have hle : c.ahead.length ≤ c.ahead.length + 1 := Nat.le_succ _
  calc (readers registry).expression power c
      = (readersOfDepth registry c.ahead.length).expression power c := rfl
    _ = (readersOfDepth registry (c.ahead.length + 1)).expression power c :=
        eq_of_agree ((readersOfDepth_tracks registry _ _).expression power rfl trivial
          (Nat.le_refl _) hle)
    _ = expression registry (readersOfDepth registry c.ahead.length) power c := rfl
    _ = expression registry (readers registry) power c :=
        eq_of_agree (expression_tracks (readersOfDepth_tracks_readers registry _ _) power rfl trivial
          hle hle)

/-- Queries are read by their rule, with parts read in the same way. -/
theorem query_readers (registry : Registry) :
    (readers registry).query = query registry (readers registry) := by
  apply ext
  intro c
  have hle : c.ahead.length ≤ c.ahead.length + 1 := Nat.le_succ _
  calc (readers registry).query c
      = (readersOfDepth registry c.ahead.length).query c := rfl
    _ = (readersOfDepth registry (c.ahead.length + 1)).query c :=
        eq_of_agree ((readersOfDepth_tracks registry _ _).query rfl trivial (Nat.le_refl _) hle)
    _ = query registry (readersOfDepth registry c.ahead.length) c := rfl
    _ = query registry (readers registry) c :=
        eq_of_agree (query_tracks (readersOfDepth_tracks_readers registry _ _) rfl trivial hle hle)

end Grammar

end SqlFront
