import SqlFront.Parse.Reading

/-! # What a reading has taken in

For what is read only the kinds of tokens count, not where they stand. A reading that succeeds is
described by the kinds it has moved over, and each basic reading by exactly when it succeeds. Nothing
here looks at errors.
-/

namespace SqlFront

/-- A result that gives a value is that value. -/
theorem ok_of_toOption {ε α : Type} {x : Except ε α} {a : α} (h : x.toOption = some a) :
    x = .ok a := by
  cases x <;> simp_all [Except.toOption]

/-- A result that gives something, and not nothing. -/
theorem ok_of_isSome {ε α : Type} {x : Except ε (Option α)} (h : (x.toOption.bind id).isSome = true) :
    ∃ a, x = .ok (some a) := by
  obtain ⟨a, ha⟩ := Option.isSome_iff_exists.mp h
  obtain ⟨o, ho, rfl⟩ := Option.bind_eq_some_iff.mp ha
  exact ⟨a, ok_of_toOption ho⟩

/-- A result that fails whatever is done with its value has failed. -/
theorem error_of_map {ε α β : Type} {x : Except ε α} {f : α → β} {e : ε} (h : x.map f = .error e) :
    x = .error e := by
  cases x with
  | error => exact congrArg Except.error (Except.error.inj h)
  | ok => cases h

namespace Cursor

/-- The kinds of the tokens ahead. -/
def kinds (c : Cursor) : List Token.Kind := c.ahead.map (·.kind)

/-- From `c` to `d` the cursor has moved over tokens of the given kinds. -/
def Moves (c : Cursor) (ks : List Token.Kind) (d : Cursor) : Prop :=
  ∃ tokens, c.Passes tokens d ∧ tokens.map (·.kind) = ks

theorem Moves.refl (c : Cursor) : c.Moves [] c := ⟨[], .refl c, rfl⟩

theorem Moves.trans {c d e : Cursor} {ks ks' : List Token.Kind} :
    c.Moves ks d → d.Moves ks' e → c.Moves (ks ++ ks') e
  | ⟨_, h, hk⟩, ⟨_, h', hk'⟩ => ⟨_, h.trans h', by rw [List.map_append, hk, hk']⟩

theorem Moves.kinds {c d : Cursor} {ks : List Token.Kind} (h : c.Moves ks d) :
    c.kinds = ks ++ d.kinds := by
  obtain ⟨tokens, h, rfl⟩ := h
  rw [Cursor.kinds, h.ahead, List.map_append, Cursor.kinds]

theorem Moves.length {c d : Cursor} {ks : List Token.Kind} (h : c.Moves ks d) :
    c.ahead.length = ks.length + d.ahead.length := by
  simpa [Cursor.kinds] using congrArg List.length h.kinds

/-- The kinds moved over decide where the cursor comes to stand. -/
theorem Moves.unique {c d d' : Cursor} {ks : List Token.Kind} (h : c.Moves ks d)
    (h' : c.Moves ks d') : d = d' := by
  obtain ⟨tokens, h, hk⟩ := h
  obtain ⟨tokens', h', hk'⟩ := h'
  have hlen : tokens.length = tokens'.length := by
    simpa using congrArg List.length (hk.trans hk'.symm)
  obtain ⟨rfl, hrest⟩ := List.append_inj (h.ahead.symm.trans h'.ahead) hlen
  obtain ⟨behind, ahead, finish⟩ := d
  obtain ⟨behind', ahead', finish'⟩ := d'
  have hb := h.behind.trans h'.behind.symm
  have hf := h.finish.trans h'.finish.symm
  simp_all

/-- The places decide the kinds moved over. -/
theorem Moves.kinds_unique {c d : Cursor} {ks ks' : List Token.Kind} (h : c.Moves ks d)
    (h' : c.Moves ks' d) : ks = ks' :=
  List.append_cancel_right (h.kinds.symm.trans h'.kinds)

/-- A move over a row of tokens stops behind each of its parts. -/
theorem Moves.split {c e : Cursor} {ks ks' : List Token.Kind} (h : c.Moves (ks ++ ks') e) :
    ∃ d, c.Moves ks d ∧ d.Moves ks' e := by
  obtain ⟨tokens, h, hk⟩ := h
  obtain ⟨first, second, rfl, rfl, rfl⟩ := List.map_eq_append_iff.mp hk
  refine ⟨⟨first.reverse ++ c.behind, second ++ e.ahead, c.finish⟩, ⟨first, ⟨?_, rfl, rfl⟩, rfl⟩,
    ⟨second, ⟨rfl, ?_, h.finish⟩, rfl⟩⟩
  · rw [h.ahead, List.append_assoc]
  · rw [h.behind, List.reverse_append, List.append_assoc]

theorem Moves.cons {c e : Cursor} {k : Token.Kind} {ks : List Token.Kind}
    (h : c.Moves (k :: ks) e) : ∃ d, c.Moves [k] d ∧ d.Moves ks e :=
  Moves.split (by simpa using h)

@[simp] theorem moves_nil {c d : Cursor} : c.Moves [] d ↔ d = c :=
  ⟨fun h => h.unique (.refl c), fun h => h ▸ .refl c⟩

/-- The cursor can move over any row of tokens that is ahead. -/
theorem exists_moves {c : Cursor} {ks rest : List Token.Kind} (h : c.kinds = ks ++ rest) :
    ∃ d, c.Moves ks d ∧ d.kinds = rest := by
  obtain ⟨first, second, hahead, rfl, rfl⟩ := List.map_eq_append_iff.mp h
  exact ⟨⟨first.reverse ++ c.behind, second, c.finish⟩, ⟨first, ⟨hahead, rfl, rfl⟩, rfl⟩, rfl⟩

/-- The kind at the cursor is the first one ahead, or the end. -/
theorem current_kind (c : Cursor) : c.current.kind = c.kinds.headD .eof := by
  obtain ⟨behind, ahead, finish⟩ := c
  cases ahead <;> rfl

/-- Ahead of a move stands the first kind moved over, or what stands behind the move. -/
theorem Moves.current {c d : Cursor} {ks : List Token.Kind} (h : c.Moves ks d) :
    c.current.kind = ks.headD d.current.kind := by
  rw [current_kind, current_kind, h.kinds]
  cases ks <;> rfl

theorem Moves.current_cons {c d : Cursor} {k : Token.Kind} {ks : List Token.Kind}
    (h : c.Moves (k :: ks) d) : c.current.kind = k :=
  h.current

theorem moves_advance {c : Cursor} (h : c.current.kind ≠ .eof) :
    c.Moves [c.current.kind] c.advance := by
  obtain ⟨behind, ahead, finish⟩ := c
  cases ahead with
  | nil => exact absurd rfl h
  | cons token rest => exact ⟨[token], ⟨rfl, rfl, rfl⟩, rfl⟩

/-- Passing one token is moving over its kind. -/
theorem moves_one {c d : Cursor} {k : Token.Kind} (hk : k ≠ .eof) :
    c.Moves [k] d ↔ c.current.kind = k ∧ d = c.advance := by
  constructor
  · intro h
    obtain rfl : c.current.kind = k := h.current_cons
    exact ⟨rfl, h.unique (moves_advance hk)⟩
  · rintro ⟨rfl, rfl⟩
    exact moves_advance hk

theorem current_moves {c : Cursor} {k : Token.Kind} (h : c.current.kind = k) (hk : k ≠ .eof) :
    c.Moves [k] c.advance :=
  (moves_one hk).mpr ⟨h, rfl⟩

theorem Moves.advance {c d : Cursor} {k : Token.Kind} (h : c.Moves [k] d) : c.advance = d := by
  obtain ⟨tokens, h, hk⟩ := h
  obtain ⟨token, rfl, -⟩ := List.map_eq_singleton_iff.mp hk
  obtain ⟨behind, ahead, finish⟩ := c
  obtain ⟨behind', ahead', finish'⟩ := d
  obtain ⟨hahead, hbehind, hfinish⟩ := h
  simp_all [Cursor.advance]

theorem kinds_advance (c : Cursor) : c.advance.kinds = c.kinds.tail := by
  obtain ⟨behind, ahead, finish⟩ := c
  cases ahead <;> rfl

/-- Behind a token that has been passed, that token is the last one. -/
theorem lastSpan_advance {c : Cursor} (h : c.current.kind ≠ .eof) :
    c.advance.lastSpan = c.current.span := by
  obtain ⟨behind, ahead, finish⟩ := c
  cases ahead with
  | nil => exact absurd rfl h
  | cons token rest => rfl

theorem Passes.moves {c d : Cursor} {tokens : List Token} (h : c.Passes tokens d) :
    c.Moves (tokens.map (·.kind)) d :=
  ⟨tokens, h, rfl⟩

end Cursor

namespace Reading

variable {α β σ : Type} {c d : Cursor}

theorem ext {p q : Reading α} (h : ∀ c, p c = q c) : p = q := by
  obtain ⟨run, _⟩ := p
  obtain ⟨run', _⟩ := q
  obtain rfl : run = run' := funext h
  rfl

theorem bind_assoc (p : Reading α) (f : α → Reading β) (g : β → Reading σ) :
    p >>= f >>= g = p >>= fun a => f a >>= g := by
  apply ext
  intro c
  simp only [bind_apply]
  rcases p c with ⟨_ | a, d⟩
  · rfl
  · rfl

/-- Every reading has moved over some row of tokens. -/
theorem moves (p : Reading α) (c : Cursor) : ∃ ks, c.Moves ks (p c).2 := by
  obtain ⟨tokens, h⟩ := p.forward c
  exact ⟨_, h.moves⟩

theorem bind_ok {p : Reading α} {f : α → Reading β} {b : β} :
    (p >>= f) c = (.ok b, d) ↔ ∃ a e, p c = (.ok a, e) ∧ f a e = (.ok b, d) := by
  rw [bind_apply]
  rcases p c with ⟨_ | x, e⟩
  · simp
  · constructor
    · exact fun h => ⟨x, e, rfl, h⟩
    · rintro ⟨_, _, ⟨⟩, h⟩
      exact h

theorem pure_ok {a b : α} : (pure a : Reading α) c = (.ok b, d) ↔ a = b ∧ c = d := by
  simp [pure_apply]

theorem discard_ok {p : Reading α} {u : Unit} :
    (discard p) c = (.ok u, d) ↔ ∃ a, p c = (.ok a, d) := by
  change (p >>= fun _ => pure ()) c = _ ↔ _
  simp [bind_ok, pure_ok]

theorem failAt_ok {fault : Fault} {place : Span} {a : α} :
    (failAt fault place : Reading α) c = (.ok a, d) ↔ False := by
  simp [failAt]

theorem unexpected_ok {expected : Expected} {a : α} :
    (unexpected expected : Reading α) c = (.ok a, d) ↔ False := by
  simp [unexpected]

theorem kind_ok {k : Token.Kind} : kind c = (.ok k, d) ↔ c.current.kind = k ∧ c = d := by
  simp [kind]

theorem span_ok {place : Span} : span c = (.ok place, d) ↔ c.current.span = place ∧ c = d := by
  simp [span]

theorem nextKind_ok {k : Token.Kind} :
    nextKind c = (.ok k, d) ↔ c.advance.current.kind = k ∧ c = d := by
  simp [nextKind]

theorem lastSpan_ok {place : Span} : lastSpan c = (.ok place, d) ↔ c.lastSpan = place ∧ c = d := by
  simp [lastSpan]

theorem advance_ok {u : Unit} : advance c = (.ok u, d) ↔ c.advance = d := by
  simp [advance]

theorem accept_ok {p : Token.Kind → Bool} {b : Bool} :
    accept p c = (.ok b, d) ↔
      b = true ∧ p c.current.kind = true ∧ c.advance = d ∨
      b = false ∧ p c.current.kind = false ∧ c = d := by
  cases h : p c.current.kind <;> cases b <;> simp [accept, h]

theorem acceptSymbol_ok {sign : Symbol} {b : Bool} :
    acceptSymbol sign c = (.ok b, d) ↔
      b = true ∧ c.Moves [.symbol sign] d ∨ b = false ∧ c.current.kind ≠ .symbol sign ∧ c = d := by
  rw [acceptSymbol, accept_ok, Cursor.moves_one (by simp), beq_iff_eq, beq_eq_false_iff_ne,
    eq_comm (a := d)]

theorem acceptKeyword_ok {word : Keyword} {b : Bool} :
    acceptKeyword word c = (.ok b, d) ↔
      b = true ∧ c.Moves [.keyword word] d ∨ b = false ∧ c.current.kind ≠ .keyword word ∧ c = d := by
  rw [acceptKeyword, accept_ok, Cursor.moves_one (by simp), beq_iff_eq, beq_eq_false_iff_ne,
    eq_comm (a := d)]

/-- A kind is a word if it is a name that spells it. -/
theorem isWord_iff {k : Token.Kind} {word : String} :
    k.isWord word = true ↔ ∃ text, k = .name text ∧ Text.sameWord text word = true := by
  cases k <;> simp [Token.Kind.isWord]

theorem acceptWord_ok {word : String} {b : Bool} :
    acceptWord word c = (.ok b, d) ↔
      (b = true ∧ ∃ text, Text.sameWord text word = true ∧ c.Moves [.name text] d) ∨
      b = false ∧ c.current.kind.isWord word = false ∧ c = d := by
  rw [acceptWord, accept_ok, isWord_iff]
  simp only [Cursor.moves_one (k := .name _) (by simp)]
  grind

/-! A reading that first looks at a token, or passes it if it is as described, goes on from there. -/

theorem kind_bind (f : Token.Kind → Reading β) : (kind >>= f) c = f c.current.kind c := rfl

theorem nextKind_bind (f : Token.Kind → Reading β) :
    (nextKind >>= f) c = f c.advance.current.kind c := rfl

theorem span_bind (f : Span → Reading β) : (span >>= f) c = f c.current.span c := rfl

theorem lastSpan_bind (f : Span → Reading β) : (lastSpan >>= f) c = f c.lastSpan c := rfl

theorem advance_bind (f : Unit → Reading β) : (advance >>= f) c = f () c.advance := rfl

theorem pure_bind (a : α) (f : α → Reading β) : (pure a >>= f) c = f a c := rfl

theorem acceptSymbol_bind {sign : Symbol} {f : Bool → Reading β} {b : β} :
    (acceptSymbol sign >>= f) c = (.ok b, d) ↔
      (∃ e, c.Moves [.symbol sign] e ∧ f true e = (.ok b, d)) ∨
      c.current.kind ≠ .symbol sign ∧ f false c = (.ok b, d) := by
  simp only [bind_ok, acceptSymbol_ok, Bool.exists_bool]
  grind

theorem acceptKeyword_bind {word : Keyword} {f : Bool → Reading β} {b : β} :
    (acceptKeyword word >>= f) c = (.ok b, d) ↔
      (∃ e, c.Moves [.keyword word] e ∧ f true e = (.ok b, d)) ∨
      c.current.kind ≠ .keyword word ∧ f false c = (.ok b, d) := by
  simp only [bind_ok, acceptKeyword_ok, Bool.exists_bool]
  grind

theorem acceptWord_bind {word : String} {f : Bool → Reading β} {b : β} :
    (acceptWord word >>= f) c = (.ok b, d) ↔
      (∃ text e, Text.sameWord text word = true ∧ c.Moves [.name text] e ∧ f true e = (.ok b, d)) ∨
      c.current.kind.isWord word = false ∧ f false c = (.ok b, d) := by
  simp only [bind_ok, acceptWord_ok, Bool.exists_bool]
  grind

theorem acceptSymbol_ite {sign : Symbol} {p q : Reading β} {b : β} :
    (acceptSymbol sign >>= fun accepted => if accepted = true then p else q) c = (.ok b, d) ↔
      (∃ e, c.Moves [.symbol sign] e ∧ p e = (.ok b, d)) ∨
      c.current.kind ≠ .symbol sign ∧ q c = (.ok b, d) :=
  acceptSymbol_bind

theorem acceptKeyword_ite {word : Keyword} {p q : Reading β} {b : β} :
    (acceptKeyword word >>= fun accepted => if accepted = true then p else q) c = (.ok b, d) ↔
      (∃ e, c.Moves [.keyword word] e ∧ p e = (.ok b, d)) ∨
      c.current.kind ≠ .keyword word ∧ q c = (.ok b, d) :=
  acceptKeyword_bind

theorem acceptWord_ite {word : String} {p q : Reading β} {b : β} :
    (acceptWord word >>= fun accepted => if accepted = true then p else q) c = (.ok b, d) ↔
      (∃ text e, Text.sameWord text word = true ∧ c.Moves [.name text] e ∧ p e = (.ok b, d)) ∨
      c.current.kind.isWord word = false ∧ q c = (.ok b, d) :=
  acceptWord_bind

theorem symbol_ok {sign : Symbol} {u : Unit} :
    symbol sign c = (.ok u, d) ↔ c.Moves [.symbol sign] d := by
  simp [symbol, acceptSymbol_bind, pure_ok, unexpected_ok]

theorem symbol_bind {sign : Symbol} (h : c.current.kind = .symbol sign) (f : Unit → Reading β) :
    (symbol sign >>= f) c = f () c.advance := by
  rw [bind_apply, symbol_ok.mpr (Cursor.current_moves h (by simp))]

theorem symbol_missing {sign : Symbol} {f : Unit → Reading β} (h : c.current.kind ≠ .symbol sign) :
    (symbol sign >>= f) c = (unexpected (.symbol sign) : Reading β) c := by
  simp [symbol, acceptSymbol, accept, bind_apply, unexpected, h]

theorem keyword_ok {word : Keyword} {u : Unit} :
    keyword word c = (.ok u, d) ↔ c.Moves [.keyword word] d := by
  simp [keyword, acceptKeyword_bind, pure_ok, unexpected_ok]

theorem word_ok {text : String} {u : Unit} :
    word text c = (.ok u, d) ↔ ∃ t, Text.sameWord t text = true ∧ c.Moves [.name t] d := by
  simp [word, acceptWord_bind, pure_ok, unexpected_ok]

theorem name_ok {text : String} : name c = (.ok text, d) ↔ c.Moves [.name text] d := by
  rw [Cursor.moves_one (by simp), name, kind_bind]
  split
  · rename_i t h
    rw [advance_bind, pure_ok, h]
    simp [eq_comm]
  · rename_i h
    simp only [unexpected_ok, false_iff, not_and]
    exact fun heq => absurd heq (h text)

/-! ## Loops -/

/-- Every step of a loop that goes on has passed a token. -/
def Progress (step : σ → Reading (ForInStep σ)) : Prop :=
  ∀ ⦃s c t d⦄, step s c = (.ok (.yield t), d) → d.ahead.length < c.ahead.length

variable {step : σ → Reading (ForInStep σ)}

/-- A loop that makes progress does not depend on the bound on its steps. -/
theorem iterateAtMost_enough (h : Progress step) {limit limit' : Nat} {s : σ} {c : Cursor}
    (hlimit : c.ahead.length < limit) (hlimit' : c.ahead.length < limit') :
    iterateAtMost step limit s c = iterateAtMost step limit' s c := by
  induction limit generalizing limit' s c with
  | zero => omega
  | succ limit ih =>
    obtain _ | limit' := limit'
    · omega
    · rw [iterateAtMost, iterateAtMost, bind_apply, bind_apply]
      rcases hstep : step s c with ⟨_ | _ | t, d⟩
      · rfl
      · rfl
      · have hless := h hstep
        exact ih (by omega) (by omega)

/-- A loop that makes progress is its first step and, if that goes on, the rest of the loop. -/
theorem iterate_eq (h : Progress step) (s : σ) :
    iterate step s = step s >>= fun
      | .done t => pure t
      | .yield t => iterate step t := by
  apply ext
  intro c
  change iterateAtMost step (c.ahead.length + 1) s c = _
  rw [iterateAtMost, bind_apply, bind_apply]
  rcases hstep : step s c with ⟨_ | _ | t, d⟩
  · rfl
  · rfl
  · exact iterateAtMost_enough h (h hstep) (Nat.lt_succ_self _)

/-- A loop that ends has ended with a last turn, and what every turn keeps holds there. -/
theorem iterate_ends (hprogress : Progress step)
    (Going Done : σ → Cursor → Prop)
    (hstep : ∀ s c turn d, Going s c → step s c = (.ok turn, d) →
      match turn with
      | .yield t => Going t d
      | .done t => Done t d)
    {s t : σ} (hs : Going s c) (h : iterate step s c = (.ok t, d)) : Done t d := by
  induction hlength : c.ahead.length using Nat.strongRecOn generalizing s c with
  | ind n ih =>
    rw [iterate_eq hprogress] at h
    obtain ⟨turn, e, hturn, h⟩ := bind_ok.mp h
    have hkept := hstep s c turn e hs hturn
    cases turn with
    | done u =>
      obtain ⟨rfl, rfl⟩ := pure_ok.mp h
      exact hkept
    | yield u => exact ih _ (hlength ▸ hprogress hturn) hkept h rfl

/-- A reading leaves no more tokens ahead than there were. -/
theorem length_le (p : Reading α) (c : Cursor) : (p c).2.ahead.length ≤ c.ahead.length := by
  obtain ⟨ks, hm⟩ := p.moves c
  have := hm.length
  omega

theorem progress_commaList (item : Reading α) :
    Progress fun items : List α => do
      if ← acceptSymbol .comma then return .yield (items ++ [← item]) else return .done items := by
  intro items c t d h
  simp only [↓acceptSymbol_ite, bind_ok, pure_ok] at h
  obtain ⟨e, hm, a, f, hitem, -, rfl⟩ | ⟨-, heq, -⟩ := h
  · have hless := hm.length
    have hmore := length_le item e
    rw [hitem] at hmore
    simp only [List.length_cons, List.length_nil] at hless hmore
    omega
  · cases heq

end Reading

end SqlFront
