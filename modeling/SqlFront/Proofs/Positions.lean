import SqlFront.Proofs.Termination
import SqlFront.Proofs.Tiling
import SqlFront.Session

/-! # Where a parser stands, and why it stops

A parser stands at one of the tokens of its input, of which the last one is the end. Main statement: that
stays so whatever is done with parsers, the place only moves forward until there is a new input, reading
cannot go on for ever, and behind the last statement there is never another one.
-/

namespace SqlFront

namespace Cursor

/-- All tokens of the input, the end last. -/
def tokens (c : Cursor) : List Token := c.behind.reverse ++ c.ahead ++ [⟨.eof, c.finish⟩]

/-- How many tokens have been passed. -/
def position (c : Cursor) : Nat := c.behind.length

/-- The tokens between two places of an input. -/
def consumed (c d : Cursor) : List Token :=
  (c.tokens.drop c.position).take (d.position - c.position)

/-- The place is one of an input. -/
def Valid (c : Cursor) : Prop := ∃ text, (ofText text).Reaches c

theorem Passes.tokens {c d : Cursor} {ts : List Token} (h : c.Passes ts d) : d.tokens = c.tokens := by
  simp [Cursor.tokens, h.ahead, h.behind, h.finish]

theorem Passes.position {c d : Cursor} {ts : List Token} (h : c.Passes ts d) :
    d.position = c.position + ts.length := by
  simp [Cursor.position, h.behind, Nat.add_comm]

/-- The tokens from a place on are those ahead and the end. -/
theorem drop_tokens (c : Cursor) : c.tokens.drop c.position = c.ahead ++ [⟨.eof, c.finish⟩] := by
  rw [tokens, position, List.append_assoc, ← List.length_reverse, List.drop_left]

theorem Passes.consumed {c d : Cursor} {ts : List Token} (h : c.Passes ts d) :
    c.consumed d = ts := by
  rw [Cursor.consumed, drop_tokens, h.position, h.ahead, Nat.add_sub_cancel_left, List.append_assoc,
    List.take_left]

theorem getElem?_position (c : Cursor) : c.tokens[c.position]? = some c.current := by
  obtain ⟨behind, ahead, finish⟩ := c
  rw [tokens, position, List.append_assoc, ← List.length_reverse,
    List.getElem?_append_right (Nat.le_refl _), Nat.sub_self]
  cases ahead <;> rfl

/-- Nothing is ahead of the end. -/
theorem Reaches.at_end {c d : Cursor} (h : c.Reaches d) (hend : c.ahead = []) : d = c := by
  obtain ⟨ts, h⟩ := h
  obtain rfl : ts = [] := (List.append_eq_nil_iff.mp (h.ahead.symm.trans hend)).1
  exact h.moves.unique (.refl c)

/-- Only the last token of an input is the end. -/
theorem ofText_ne_eof (text : String) : ∀ t ∈ (ofText text).ahead, t.kind ≠ .eof := by
  have hcuts := Scanner.cuts_tokens (s := Scanner.start text) (Nat.le_of_eq String.length_toList)
  obtain ⟨htiles, -⟩ := Token.tiles_of_cuts hcuts (Scanner.in_start text)
  exact fun t ht => (htiles.token t ht).2.2.1

theorem tokens_ofText (text : String) : (ofText text).tokens = Token.tokenize text := by
  have hcuts := Scanner.cuts_tokens (s := Scanner.start text) (Nat.le_of_eq String.length_toList)
  obtain ⟨-, -, -, heof⟩ := Token.tiles_of_cuts hcuts (Scanner.in_start text)
  have hfinish : (Token.scan text).2 = ⟨.eof, (Token.scan text).2.span⟩ :=
    congrArg (Token.mk · (Token.scan text).2.span) heof
  change _ ++ [_] = (Token.scan text).1 ++ [(Token.scan text).2]
  rw [hfinish]
  rfl

theorem Valid.ne_eof {c : Cursor} (h : c.Valid) : ∀ t ∈ c.ahead, t.kind ≠ .eof := by
  obtain ⟨text, ts, h⟩ := h
  intro t ht
  exact ofText_ne_eof text t (h.ahead ▸ List.mem_append_right _ ht)

theorem Valid.reaches {c d : Cursor} (h : c.Valid) (hd : c.Reaches d) : d.Valid := by
  obtain ⟨text, h⟩ := h
  exact ⟨text, h.trans hd⟩

end Cursor

/-! ## Readings at a place of an input -/

namespace Grammar

open Reading

variable {r : Registry}

/-- Without a next statement, everything has been passed. -/
theorem statement?_none {c d : Cursor} (hc : ∀ t ∈ c.ahead, t.kind ≠ .eof)
    (h : statement? r c = (.ok none, d)) : d.ahead = [] := by
  obtain ⟨_, e, he, h⟩ := bind_ok.mp h
  have hforward := emptyStatements.forward c
  rw [he] at hforward
  obtain ⟨ts, hpasses⟩ := hforward
  rw [kind_bind] at h
  split at h
  · rename_i hend
    obtain ⟨-, rfl⟩ := pure_ok.mp h
    cases hahead : e.ahead with
    | nil => rfl
    | cons t rest =>
      have hkind : t.kind = .eof := by simpa [Cursor.current, hahead] using hend
      have hmem : t ∈ c.ahead := by
        rw [hpasses.ahead, hahead]
        simp
      exact absurd hkind (hc t hmem)
  · split at h
    · obtain ⟨_, f, hf, h⟩ := bind_ok.mp h
      obtain ⟨-, rfl⟩ := pure_ok.mp h
      cases hf
      rfl
    · simp [bind_ok, pure_ok] at h

/-- At the end every reading stays where it is. -/
theorem reading_at_end {α : Type} (p : Reading α) {c : Cursor} (h : c.ahead = []) : (p c).2 = c :=
  (p.forward c).at_end h

theorem statement?_again {c : Cursor} (h : c.ahead = []) : statement? r c = (.ok none, c) :=
  statement?_at_end (by rw [Cursor.current, h]; rfl)

end Grammar

/-! ## What is done with parsers -/

/-- What can be done with the parsers of a session. -/
inductive Action where
  /-- Give a parser a new input. -/
  | load (p : Nat) (input : Input)
  /-- Put a new parser of a text in the place of another. -/
  | renew (p : Nat) (text : String)
  /-- Register a function through a parser. -/
  | register (p : Nat) (name : String) (arity : Arity)
  /-- Read from the input of a parser. -/
  | read (p : Nat) (call : Grammar.Call)

/-- The action may give a parser a new input. -/
def Action.Loads (p : Nat) : Action → Prop
  | .load q _ => q = p
  | .renew q _ => q = p
  | _ => False

namespace Session

/-- The session afterwards. An input that cannot be fetched changes nothing. -/
def act (s : Session) : Action → Session
  | .load p input => (s.load p input).toOption.getD s
  | .renew p text => s.renew p text
  | .register p name arity => s.register p name arity
  | .read p call => (s.read p call.reading).2

/-- The session after some actions. -/
def run (s : Session) (actions : List Action) : Session := actions.foldl act s

theorem run_append (s : Session) (actions more : List Action) :
    s.run (actions ++ more) = (s.run actions).run more := List.foldl_append

theorem parser_withParser (s : Session) (p q : Nat) (new : Parser) :
    (s.withParser q new).parser p = if q = p ∧ q < s.parsers.length then new else s.parser p := by
  simp only [parser, withParser, List.getElem?_set]
  split
  · rename_i heq
    subst heq
    split
    · simp [*]
    · simp [*]
  · rename_i hne
    rw [if_neg fun h => hne h.1]

theorem lt_of_cursor {s : Session} {p : Nat} {c : Cursor} (h : (s.parser p).cursor = some c) :
    p < s.parsers.length := by
  rw [parser] at h
  cases hp : s.parsers[p]? with
  | none => rw [hp] at h; cases h
  | some => exact (List.getElem?_eq_some_iff.mp hp).1

/-- A reading takes a parser from its place to the one behind the reading, and no other parser. -/
theorem read_eq {α : Type} {s : Session} {p : Nat} {c : Cursor} (h : (s.parser p).cursor = some c)
    (reading : Registry → Reading α) :
    s.read p reading = ((reading (s.registry p) c).1,
      s.withParser p { s.parser p with cursor := some (reading (s.registry p) c).2 }) := by
  rw [read, h]

theorem withParser_self {s : Session} {p : Nat} {c : Cursor} (h : (s.parser p).cursor = some c) :
    s.withParser p { s.parser p with cursor := some c } = s := by
  have hlt := lt_of_cursor h
  have hparser : s.parsers[p] = s.parser p := by simp [parser, hlt]
  have hsame : { s.parser p with cursor := some c } = s.parsers[p] := by
    rw [hparser, ← h]
  rw [hsame, withParser, List.set_getElem_self]

/-- What an action does to the place of a parser. -/
inductive Moved (a : Action) (p : Nat) : Option Cursor → Option Cursor → Prop
  | stays (o) : Moved a p o o
  | renewed {o} (text) : a.Loads p → Moved a p o (some (Cursor.ofText text))
  | forward {c d} : c.Reaches d → Moved a p (some c) (some d)

theorem act_moved (s : Session) (a : Action) (p : Nat) :
    Moved a p (s.parser p).cursor ((s.act a).parser p).cursor := by
  cases a with
  | load q input =>
    rw [act, load]
    cases input.fetch with
    | error => exact .stays _
    | ok text =>
      change Moved _ p _ ((s.withParser q _).parser p).cursor
      rw [parser_withParser]
      split
      · exact .renewed text (‹_ ∧ _›).1
      · exact .stays _
  | renew q text =>
    rw [act, renew, parser_withParser]
    split
    · exact .renewed text (‹_ ∧ _›).1
    · exact .stays _
  | register q name arity => exact .stays _
  | read q call =>
    rw [act]
    cases hq : (s.parser q).cursor with
    | none =>
      rw [read, hq]
      exact .stays _
    | some c =>
      rw [read_eq hq, parser_withParser]
      split
      · rename_i heq
        obtain ⟨rfl, -⟩ := heq
        rw [hq]
        exact .forward ((call.reading _).forward c)
      · exact .stays _

theorem run_forward {s : Session} {actions : List Action} {p : Nat} {c : Cursor}
    (h : (s.parser p).cursor = some c) (hactions : ∀ a ∈ actions, ¬ a.Loads p) :
    ∃ d, ((s.run actions).parser p).cursor = some d ∧ c.Reaches d := by
  induction actions generalizing s c with
  | nil => exact ⟨c, h, .refl c⟩
  | cons a actions ih =>
    have hmoved := act_moved s a p
    rw [h] at hmoved
    have hrest : ∀ b ∈ actions, ¬ b.Loads p := fun b hb => hactions b (List.mem_cons_of_mem _ hb)
    generalize hafter : ((s.act a).parser p).cursor = after at hmoved
    cases hmoved with
    | stays => exact ih hafter hrest
    | renewed text hload => exact absurd hload (hactions a (List.mem_cons_self ..))
    | forward hreach =>
      obtain ⟨e, he, hreach'⟩ := ih hafter hrest
      exact ⟨e, he, hreach.trans hreach'⟩

/-- Every parser that has an input stands at a place of an input. -/
def Sound (s : Session) : Prop := ∀ p c, (s.parser p).cursor = some c → c.Valid

theorem sound_start (registries : List Registry) (users : List Nat) : (start registries users).Sound := by
  intro p c h
  simp only [parser, start, List.getElem?_map] at h
  cases hp : users[p]? <;> rw [hp] at h <;> cases h

theorem Sound.act {s : Session} (h : s.Sound) (a : Action) : (s.act a).Sound := by
  intro p c hc
  have hmoved := act_moved s a p
  rw [hc] at hmoved
  generalize hbefore : (s.parser p).cursor = before at hmoved
  cases hmoved with
  | stays => exact h p c hbefore
  | renewed text => exact ⟨text, .refl _⟩
  | forward hreach => exact (h p _ hbefore).reaches hreach

theorem Sound.run {s : Session} (h : s.Sound) (actions : List Action) : (s.run actions).Sound := by
  induction actions generalizing s with
  | nil => exact h
  | cons a actions ih => exact ih (h.act a)

/-- Once there has been no next statement, there is none until there is a new input. -/
theorem statement?_never {s after : Session} {p : Nat} (hs : s.Sound)
    (h : s.read p Grammar.statement? = (.ok none, after)) {more : List Action}
    (hmore : ∀ a ∈ more, ¬ a.Loads p) :
    ((after.run more).parser p).cursor = (after.parser p).cursor ∧
      (after.run more).read p Grammar.statement? = (.ok none, after.run more) := by
  cases hc : (s.parser p).cursor with
  | none =>
    rw [read, hc] at h
    cases h
  | some c =>
    rw [read_eq hc] at h
    obtain ⟨hnone, rfl⟩ := Prod.mk.inj h
    have hend := Grammar.statement?_none (d := (Grammar.statement? (s.registry p) c).2)
      (hs p c hc).ne_eof (Prod.ext hnone rfl)
    generalize (Grammar.statement? (s.registry p) c).2 = d at hend
    have hd : ((s.withParser p { s.parser p with cursor := some d }).parser p).cursor = some d := by
      rw [parser_withParser, if_pos ⟨rfl, lt_of_cursor hc⟩]
    obtain ⟨e, he, hreach⟩ := run_forward hd hmore
    obtain rfl := hreach.at_end hend
    refine ⟨he.trans hd.symm, ?_⟩
    rw [read_eq he, Grammar.statement?_again hend, withParser_self he]

end Session

/-- A parser that has an input stands at one of its tokens, and only the last of these is the end; it
    moves forward until there is a new input; a statement moves it over semicolons, the tokens of the
    statement and at most one semicolon; once there is no statement, there is none until there is a new
    input; and no reading goes on for ever. -/
theorem parser_stands (registries : List Registry) (users : List Nat) (actions : List Action)
    (p : Nat) (c : Cursor)
    (hc : (((Session.start registries users).run actions).parser p).cursor = some c) :
    (∃ text, c.tokens = Token.tokenize text) ∧
    (∃ front, c.tokens = front ++ [⟨.eof, c.finish⟩] ∧ ∀ t ∈ front, t.kind ≠ .eof) ∧
    c.position < c.tokens.length ∧ c.tokens[c.position]? = some c.current ∧
    (∀ more : List Action, (∀ a ∈ more, ¬ a.Loads p) →
      ∃ d, (((Session.start registries users).run (actions ++ more)).parser p).cursor = some d ∧
        d.tokens = c.tokens ∧ c.position ≤ d.position) ∧
    (∀ s after, ((Session.start registries users).run actions).read p Grammar.statement? =
        (.ok (some s), after) →
      ∃ d, (after.parser p).cursor = some d ∧ c.position < d.position ∧ ∃ before body last,
        (c.consumed d).map (·.kind) = before ++ body ++ last ∧
        (∀ k ∈ before, k = .symbol .semicolon) ∧ body ≠ [] ∧ (∀ k ∈ body, k.inner = true) ∧
        (last = [.symbol .semicolon] ∨ last = [] ∧ d.current.kind = .eof)) ∧
    (∀ after, ((Session.start registries users).run actions).read p Grammar.statement? =
        (.ok none, after) →
      ∀ more : List Action, (∀ a ∈ more, ¬ a.Loads p) →
        ((after.run more).parser p).cursor = (after.parser p).cursor ∧
        (after.run more).read p Grammar.statement? = (.ok none, after.run more)) ∧
    ∀ r, Grammar.Terminates r := by
  have hsound := (Session.sound_start registries users).run actions
  obtain ⟨text, ts, hpasses⟩ := hsound p c hc
  have htext : c.tokens = Token.tokenize text := hpasses.tokens.trans (Cursor.tokens_ofText text)
  have hfront : c.behind.reverse ++ c.ahead = (Cursor.ofText text).ahead := by
    rw [hpasses.behind, hpasses.ahead]
    simp [Cursor.ofText]
  refine ⟨⟨text, htext⟩, ⟨_, rfl, hfront ▸ Cursor.ofText_ne_eof text⟩, ?_, c.getElem?_position, ?_, ?_,
    ?_, Grammar.terminates⟩
  · simp only [Cursor.tokens, Cursor.position, List.length_append, List.length_reverse]
    exact Nat.lt_succ_of_le (Nat.le_add_right ..)
  · intro more hmore
    obtain ⟨d, hd, ts, hreach⟩ := Session.run_forward hc hmore
    rw [Session.run_append]
    exact ⟨d, hd, hreach.tokens, by rw [hreach.position]; exact Nat.le_add_right ..⟩
  · intro s after h
    rw [Session.read_eq hc] at h
    obtain ⟨hsome, rfl⟩ := Prod.mk.inj h
    obtain ⟨before, body, last, ⟨ts, hm, hkinds⟩, hbefore, hbody, hinner, hlast⟩ :=
      Grammar.statement?_moves (Prod.ext hsome rfl)
    refine ⟨_, ?_, ?_, before, body, last, ?_, hbefore, hbody, hinner, hlast⟩
    · rw [Session.parser_withParser, if_pos ⟨rfl, Session.lt_of_cursor hc⟩]
    · have hpos := List.length_pos_iff.mpr hbody
      have hlength := congrArg List.length hkinds
      simp only [List.length_map, List.length_append] at hlength
      rw [hm.position]
      omega
    · rw [hm.consumed, hkinds]
  · exact fun after h more hmore => Session.statement?_never hsound h hmore

theorem parser_stands_delete :
    ∃ c, (((Session.start [Registry.builtin] [0]).run
        [.load 0 (.text "delete t;"), .read 0 .statement]).parser 0).cursor = some c ∧
      c.position = 3 ∧ c.position < c.tokens.length := by
  have hc : ((((Session.start [Registry.builtin] [0]).run
      [.load 0 (.text "delete t;"), .read 0 .statement]).parser 0).cursor.map (·.position)) =
        some 3 := by decide +kernel
  obtain ⟨c, hc, hposition⟩ := Option.map_eq_some_iff.mp hc
  exact ⟨c, hc, hposition, (parser_stands _ _ _ 0 c hc).2.2.1⟩

end SqlFront
