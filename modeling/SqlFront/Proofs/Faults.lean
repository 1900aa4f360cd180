import SqlFront.Proofs.Couplings
import SqlFront.Proofs.Positions

/-! # Where errors point

An error of a reading has a span. Main statement: it starts where a token of the input starts and stops
where one stops, so that it cuts a piece out of the input; if it is about one token that stands in the
place of another, that token is the one at which the parser stands afterwards.
-/

namespace SqlFront

namespace Text

/-- The text may be cut at the given byte. -/
def CutAt (text : String) (n : Nat) : Prop :=
  ∃ front back, text.toList = front ++ back ∧ byteLength front = n

theorem cutBytes?_some {n : Nat} {cs front back : List Char}
    (h : cutBytes? n cs = some (front, back)) : cs = front ++ back ∧ byteLength front = n := by
  induction cs generalizing n front back with
  | nil =>
    cases n with
    | zero =>
      cases h
      exact ⟨rfl, rfl⟩
    | succ n => cases h
  | cons c cs ih =>
    cases n with
    | zero =>
      cases h
      exact ⟨rfl, rfl⟩
    | succ n =>
      rw [cutBytes?] at h
      split at h
      · obtain ⟨⟨taken, rest⟩, hcut, heq⟩ := Option.map_eq_some_iff.mp h
        cases heq
        obtain ⟨rfl, hlength⟩ := ih hcut
        refine ⟨rfl, ?_⟩
        rw [byteLength_cons]
        omega
      · cases h

theorem CutAt.le {text : String} {n : Nat} (h : CutAt text n) : n ≤ byteLength text.toList := by
  obtain ⟨front, back, htext, rfl⟩ := h
  rw [htext, byteLength_append]
  exact Nat.le_add_right ..

theorem eq_nil_of_byteLength {cs : List Char} (h : byteLength cs = 0) : cs = [] := by
  cases cs with
  | nil => rfl
  | cons c cs =>
    have := Char.utf8Size_pos c
    rw [byteLength_cons] at h
    omega

end Text

namespace Span

/-- A span that cuts a piece out of a text starts and stops where the text may be cut. -/
theorem cuts_of_slice? {span : Span} {text piece : String} (h : span.slice? text = some piece) :
    Text.CutAt text span.start ∧ Text.CutAt text span.stop := by
  rw [slice?] at h
  split at h
  · rename_i hle
    simp only [Option.bind_eq_bind, Option.bind_eq_some_iff] at h
    obtain ⟨⟨front, rest⟩, hfront, ⟨taken, back⟩, htaken, -⟩ := h
    obtain ⟨htext, hstart⟩ := Text.cutBytes?_some hfront
    obtain ⟨rfl, hlength⟩ := Text.cutBytes?_some htaken
    refine ⟨⟨_, _, htext, hstart⟩, front ++ taken, back, by rw [htext, List.append_assoc], ?_⟩
    rw [Text.byteLength_append, hstart, hlength, length]
    omega
  · cases h

/-- Between two places where a text may be cut stands a piece of it. -/
theorem slice?_of_cuts {span : Span} {text : String} (hstart : Text.CutAt text span.start)
    (hstop : Text.CutAt text span.stop) (hle : span.start ≤ span.stop) :
    ∃ piece, span.slice? text = some piece := by
  obtain ⟨start, stop⟩ := span
  obtain ⟨front, back, htext, rfl⟩ := hstart
  obtain ⟨front', back', htext', rfl⟩ := hstop
  obtain ⟨part, rfl, rfl⟩ : ∃ part, front' = front ++ part ∧ back = part ++ back' := by
    obtain ⟨part, rfl, rfl⟩ | ⟨part, rfl, rfl⟩ := List.append_eq_append_iff.mp (htext.symm.trans htext')
    · exact ⟨part, rfl, rfl⟩
    · have hpart : Text.byteLength part = 0 := by
        simp only [Text.byteLength_append] at hle
        omega
      rw [Text.eq_nil_of_byteLength hpart]
      exact ⟨[], by simp, by simp⟩
  rw [Text.byteLength_append]
  exact ⟨_, slice?_part htext⟩

end Span

namespace Token

/-- Before the end the tokens tile the text. -/
theorem tokenize_split (text : String) :
    ∃ tokens, Tiles text 0 tokens ∧ tokenize text =
      tokens ++ [⟨.eof, ⟨Text.byteLength text.toList, Text.byteLength text.toList⟩⟩] := by
  have hcuts := Scanner.cuts_tokens (s := Scanner.start text) (Nat.le_of_eq String.length_toList)
  obtain ⟨htiles, hin, -, heof⟩ := tiles_of_cuts hcuts (Scanner.in_start text)
  have hfinish := congrArg Prod.fst (Scanner.next_eof (Scanner.next_eof_iff.mp heof))
  rw [hin.end_eq] at hfinish
  exact ⟨_, htiles, congrArg (_ ++ [·]) hfinish⟩

/-- Tokens start and stop where the text may be cut, and only the end has no characters, behind the last
    byte. -/
theorem tokenize_cuts {text : String} {t : Token} (ht : t ∈ tokenize text) :
    t.span.start ≤ t.span.stop ∧ Text.CutAt text t.span.start ∧ Text.CutAt text t.span.stop ∧
      (t.kind = .eof ↔
        t.span = ⟨Text.byteLength text.toList, Text.byteLength text.toList⟩) := by
  obtain ⟨tokens, htiles, htokens⟩ := tokenize_split text
  rw [htokens, List.mem_append, List.mem_singleton] at ht
  obtain ht | rfl := ht
  · obtain ⟨-, hless, hkind, piece, hpiece, -⟩ := htiles.token t ht
    obtain ⟨hstart, hstop⟩ := Span.cuts_of_slice? hpiece
    refine ⟨Nat.le_of_lt hless, hstart, hstop, iff_of_false hkind fun heq => ?_⟩
    rw [heq] at hless
    exact Nat.lt_irrefl _ hless
  · have hend : Text.CutAt text (Text.byteLength text.toList) :=
      ⟨text.toList, [], (List.append_nil _).symm, rfl⟩
    exact ⟨Nat.le_refl _, hend, hend, iff_of_true rfl rfl⟩

end Token

/-- The span starts where a token of the text starts and stops where one stops. -/
structure Span.Located (span : Span) (text : String) : Prop where
  ordered : span.start ≤ span.stop
  starts : ∃ t ∈ Token.tokenize text, t.span.start = span.start
  stops : ∃ t ∈ Token.tokenize text, t.span.stop = span.stop

theorem Span.Located.merge {text : String} {s t : Span} (hs : s.Located text) (ht : t.Located text) :
    (s.merge t).Located text where
  ordered := by
    have := hs.ordered
    simp only [Span.merge]
    omega
  starts := by
    simp only [Span.merge]
    obtain h | h := Nat.le_total s.start t.start
    · rw [Nat.min_eq_left h]
      exact hs.starts
    · rw [Nat.min_eq_right h]
      exact ht.starts
  stops := by
    simp only [Span.merge]
    obtain h | h := Nat.le_total s.stop t.stop
    · rw [Nat.max_eq_right h]
      exact ht.stops
    · rw [Nat.max_eq_left h]
      exact hs.stops

/-- A located span cuts a piece out of the text. -/
theorem Span.Located.slice? {text : String} {span : Span} (h : span.Located text) :
    span.stop ≤ Text.byteLength text.toList ∧ ∃ piece, span.slice? text = some piece := by
  obtain ⟨t, ht, hstart⟩ := h.starts
  obtain ⟨u, hu, hstop⟩ := h.stops
  have hfront := (Token.tokenize_cuts ht).2.1
  have hback := (Token.tokenize_cuts hu).2.2.1
  rw [hstart] at hfront
  rw [hstop] at hback
  exact ⟨hback.le, Span.slice?_of_cuts hfront hback h.ordered⟩

/-! ## The spans of errors -/

theorem Cursor.current_mem (c : Cursor) : c.current ∈ c.tokens :=
  List.mem_of_getElem? c.getElem?_position

theorem Cursor.Reaches.tokens {c d : Cursor} (h : c.Reaches d) : d.tokens = c.tokens := by
  obtain ⟨ts, h⟩ := h
  exact h.tokens

/-- A place in a text compared with itself; errors are located in the text. -/
def pointing (text : String) : Lockstep where
  rel c c' := c = c' ∧ c.tokens = Token.tokenize text
  escaped _ := False
  place s _ := s.Located text
  fault _ _ := True
  escaped_reaches h _ := h
  current h := .inl (h.1 ▸ rfl)
  span {c _} h := by
    have hmem : c.current ∈ Token.tokenize text := h.2 ▸ c.current_mem
    exact ⟨(Token.tokenize_cuts hmem).1, ⟨_, hmem, rfl⟩, _, hmem, rfl⟩
  merge h h' := h.merge h'
  fault_refl _ := trivial
  unexpected _ _ := trivial
  advance {c _} h _ := by
    obtain ⟨rfl, htokens⟩ := h
    exact .inr ⟨rfl, (Cursor.reaches_advance c).tokens.trans htokens⟩

theorem pointing_even (text : String) : (pointing text).Even where
  stays _ h := h
  current h := h.1 ▸ rfl
  advance {c _} h := by
    obtain ⟨rfl, htokens⟩ := h
    exact ⟨rfl, (Cursor.reaches_advance c).tokens.trans htokens⟩
  toEnd {c _} h := by
    obtain ⟨rfl, htokens⟩ := h
    exact ⟨rfl, (Cursor.reaches_toEnd c).tokens.trans htokens⟩

/-- Where the first reading fails because of the token at which it stands, the error has the place and
    the kind of that token. -/
def standing : Coupling where
  stands _ := True
  failure e d := ∀ fault span, e = .malformed fault span → ∀ k ∈ fault.found?, d.current = ⟨k, span⟩
  stands_reaches _ _ := trivial
  unexpected := by
    rintro c - expected _ _ ⟨⟩ k hk
    cases hk
    rfl
  other := by
    rintro c fault hfault span _ _ ⟨⟩ k hk
    rw [hfault] at hk
    cases hk

namespace Grammar

variable {r : Registry} {text : String} {c d : Cursor} {call : Call} {fault : Fault} {span : Span}

/-- Errors are located in the text. -/
theorem call_located (hc : (Cursor.ofText text).Reaches c)
    (h : call.reading r c = (.error (.malformed fault span), d)) : span.Located text := by
  have htokens : c.tokens = Token.tokenize text := hc.tokens.trans (Cursor.tokens_ofText text)
  have htracks {n : Nat} : (pointing text).Tracks n n (call.reading r) (call.reading r) :=
    call_tracks (pointing_even text) call
  have hagree := htracks (c := c) ⟨rfl, htokens⟩ trivial (Nat.le_refl _) (Nat.le_refl _)
  rw [h] at hagree
  obtain ⟨hsame, -⟩ := hagree.resolve_left fun h => h
  cases hsame with
  | malformed _ hplace => exact hplace

/-- A token that stands in the place of another is the one at which the reading has stopped. -/
theorem call_stands (h : call.reading r c = (.error (.malformed fault span), d)) {k : Token.Kind}
    (hk : fault.found? = some k) : d.current = ⟨k, span⟩ := by
  have hparts : standing.Parts (readers r) (readers r) :=
    readers_coupled (.refl r) fun _ _ _ _ _ _ => rfl
  exact (call_coupled hparts call).error trivial h fault span rfl k hk

end Grammar

/-- A piece of the input that is no token speaks for itself. -/
theorem Fault.message_of_found {fault : Fault} {f : LexicalFault}
    (h : fault.found? = some (.invalid f)) : fault.message = f.message := by
  cases fault with
  | unexpected expected found =>
    obtain rfl : found = .invalid f := Option.some.inj h
    rfl
  | chainedComparison | unknownFunction | argumentCount => cases h

/-- However a parser is used after it has been given a text, the errors of its readings start where a
    token of the text starts and stop where one stops, so that they cut a piece out of it. An error about
    a token in the place of another has the span of just that token, at which the parser stands
    afterwards; it is the end if the span is the empty one behind the last byte; and if it is no token,
    the error says why. -/
theorem errors_point_at_tokens (s : Session) (p : Nat) (text : String)
    (hs : (s.parser p).cursor = some (Cursor.ofText text)) (actions : List Action)
    (hactions : ∀ a ∈ actions, ¬ a.Loads p) (call : Grammar.Call) (fault : Fault) (span : Span)
    (after : Session)
    (h : (s.run actions).read p call.reading = (.error (.malformed fault span), after)) :
    span.start ≤ span.stop ∧ span.stop ≤ Text.byteLength text.toList ∧
    (∃ t ∈ Token.tokenize text, t.span.start = span.start) ∧
    (∃ t ∈ Token.tokenize text, t.span.stop = span.stop) ∧
    (∃ piece, span.slice? text = some piece) ∧
    ∃ d, (after.parser p).cursor = some d ∧ d.tokens = Token.tokenize text ∧
      ∀ k, fault.found? = some k →
        (⟨k, span⟩ : Token) ∈ Token.tokenize text ∧ d.current = ⟨k, span⟩ ∧
        (k = .eof ↔ span = ⟨Text.byteLength text.toList, Text.byteLength text.toList⟩) ∧
        ∀ f, k = .invalid f → fault.message = f.message := by
  obtain ⟨c, hc, hreaches⟩ := Session.run_forward hs hactions
  rw [Session.read_eq hc] at h
  obtain ⟨herror, rfl⟩ := Prod.mk.inj h
  generalize hd : (call.reading ((s.run actions).registry p) c).2 = d
  have hread : call.reading ((s.run actions).registry p) c = (.error (.malformed fault span), d) :=
    Prod.ext herror hd
  have hlocated := Grammar.call_located hreaches hread
  obtain ⟨hinside, hslice⟩ := hlocated.slice?
  have htokens : d.tokens = Token.tokenize text := by
    have hforward := (call.reading ((s.run actions).registry p)).forward c
    rw [← Cursor.tokens_ofText text, ← hd]
    exact (hreaches.trans hforward).tokens
  refine ⟨hlocated.ordered, hinside, hlocated.starts, hlocated.stops, hslice, d, ?_, htokens, ?_⟩
  · rw [Session.parser_withParser, if_pos ⟨rfl, Session.lt_of_cursor hc⟩]
  · intro k hk
    have hcurrent := Grammar.call_stands hread hk
    have hmem : (⟨k, span⟩ : Token) ∈ Token.tokenize text := by
      rw [← hcurrent, ← htokens]
      exact d.current_mem
    refine ⟨hmem, hcurrent, (Token.tokenize_cuts hmem).2.2.2, ?_⟩
    rintro f rfl
    exact Fault.message_of_found hk

theorem errors_point_at_tokens_behind :
    ∃ (s after : Session) (fault : Fault) (span : Span),
      (s.parser 0).cursor = some (Cursor.ofText "select; a \x27b") ∧
      (s.run [.read 0 .statement, .read 0 .condition]).read 0 Grammar.Call.statement.reading =
        (.error (.malformed fault span), after) ∧
      ∃ d, (after.parser 0).cursor = some d ∧ ∀ k, fault.found? = some k → d.current = ⟨k, span⟩ := by
  have hs : (((Session.start [Registry.builtin] [0]).act
      (.load 0 (.text "select; a \x27b"))).parser 0).cursor =
        some (Cursor.ofText "select; a \x27b") := rfl
  have hread : ((((Session.start [Registry.builtin] [0]).act (.load 0 (.text "select; a \x27b"))).run
      [.read 0 .statement, .read 0 .condition]).read 0 Grammar.Call.statement.reading).1.map (fun _ => ()) =
        .error (.malformed (.unexpected .statement (.name "a")) ⟨8, 9⟩) := by decide +kernel
  have hread := Prod.ext (error_of_map hread) rfl
  obtain ⟨-, -, -, -, -, d, hd, -, hfound⟩ := errors_point_at_tokens _ 0 _ hs
    [.read 0 .statement, .read 0 .condition] (by simp [Action.Loads]) .statement _ _ _ hread
  exact ⟨_, _, _, _, hs, hread, d, hd, fun k hk => (hfound k hk).2.1⟩

end SqlFront
