import SqlFront.Proofs.WholeTokens

/-! # Tokens tile the input

Between the tokens of a text there is nothing but white space and comments. Main statement: the spans
of the tokens lie in the text one behind the other, each covers the characters that its kind says,
and what is left over is layout.
-/

namespace SqlFront

/-! ## Layout -/

/-- White space and comments. The index says what a character behind them would belong to: to the
    last comment if that has no end, or else to more layout or a token. -/
inductive Layout.Fills : Layout → List Char → Prop
  | nil : Fills .blank []
  | space {last c cs} : Text.isSpace c = true → Fills last cs → Fills last (c :: cs)
  | line {last body cs} : '\n' ∉ body → Fills last cs →
      Fills last ('-' :: '-' :: (body ++ '\n' :: cs))
  | block {last body cs} : ¬ ['*', '/'] <:+: body → Fills last cs →
      Fills last ('/' :: '*' :: (body ++ '*' :: '/' :: cs))
  | openLine {body} : '\n' ∉ body → Fills .line ('-' :: '-' :: body)
  | openBlock {body} : ¬ ['*', '/'] <:+: body → Fills .block ('/' :: '*' :: body)

namespace Layout

theorem skip_append (layout : Layout) (cs : List Char) :
    (layout.skip cs).1 ++ (layout.skip cs).2 = cs := by
  induction cs generalizing layout with
  | nil => rfl
  | cons c cs ih =>
    rw [skip]
    split
    · rfl
    · rename_i next _
      exact congrArg (c :: ·) (ih next)

/-- No layout starts where skipping stops. -/
theorem skip_stops {layout : Layout} {cs : List Char} {c : Char} {ds : List Char}
    (h : (layout.skip cs).2 = c :: ds) : after? .blank c ds = none := by
  induction cs generalizing layout with
  | nil => cases h
  | cons d cs ih =>
    rw [skip] at h
    split at h
    · rename_i hstop
      obtain ⟨rfl, rfl⟩ := List.cons.inj h
      cases layout with
      | blank => exact hstop
      | line | opening | block | closing => simp [after?] at hstop
    · exact ih h

/-- A comment to the end of the line takes in the line, and with its end what is skipped behind it. -/
theorem skip_line (cs : List Char) :
    ('\n' ∉ cs ∧ skip .line cs = (cs, [])) ∨
      ∃ body after, cs = body ++ '\n' :: after ∧ '\n' ∉ body ∧
        skip .line cs = (body ++ '\n' :: (skip .blank after).1, (skip .blank after).2) := by
  induction cs with
  | nil => exact .inl ⟨List.not_mem_nil, rfl⟩
  | cons c cs ih =>
    by_cases hc : c = '\n'
    · subst hc
      exact .inr ⟨[], cs, rfl, List.not_mem_nil, rfl⟩
    · have hskip : skip .line (c :: cs) = (c :: (skip .line cs).1, (skip .line cs).2) := by
        simp [skip, after?, hc]
      obtain ⟨hbody, heq⟩ | ⟨body, after, rfl, hbody, heq⟩ := ih
      · refine .inl ⟨?_, by rw [hskip, heq]⟩
        simpa [Ne.symm hc] using hbody
      · refine .inr ⟨c :: body, after, rfl, ?_, by rw [hskip, heq]; rfl⟩
        simpa [Ne.symm hc] using hbody

/-- A comment between signs takes in everything up to its closing sign, and with it what is skipped
    behind it. -/
theorem skip_block (cs : List Char) :
    (¬ ['*', '/'] <:+: cs ∧ skip .block cs = (cs, [])) ∨
      ∃ body after, cs = body ++ '*' :: '/' :: after ∧ ¬ ['*', '/'] <:+: body ∧
        skip .block cs = (body ++ '*' :: '/' :: (skip .blank after).1, (skip .blank after).2) := by
  induction cs with
  | nil => exact .inl ⟨by simp, rfl⟩
  | cons c cs ih =>
    by_cases hclose : c = '*' ∧ cs.head? = some '/'
    · obtain ⟨rfl, hhead⟩ := hclose
      obtain ⟨after, rfl⟩ := List.head?_eq_some_iff.mp hhead
      exact .inr ⟨[], after, rfl, by simp, rfl⟩
    · have hskip : skip .block (c :: cs) = (c :: (skip .block cs).1, (skip .block cs).2) := by
        simp [skip, after?, hclose]
      -- The first two characters are no closing sign, so that a comment without one may grow by `c`.
      have hgrow {body after : List Char} (hcs : cs = body ++ after) (hbody : ¬ ['*', '/'] <:+: body) :
          ¬ ['*', '/'] <:+: c :: body := by
        rw [List.infix_cons_iff, not_or]
        refine ⟨fun hfront => hclose ?_, hbody⟩
        obtain ⟨tail, htail⟩ := hfront
        obtain ⟨rfl, rfl⟩ := List.cons.inj htail
        exact ⟨rfl, by simp [hcs]⟩
      obtain ⟨hbody, heq⟩ | ⟨body, after, rfl, hbody, heq⟩ := ih
      · exact .inl ⟨hgrow (List.append_nil cs).symm hbody, by rw [hskip, heq]⟩
      · exact .inr ⟨c :: body, after, rfl, hgrow rfl hbody, by rw [hskip, heq]; rfl⟩

/-- What is skipped is layout, and without an open comment if anything follows it. -/
theorem skip_fills (cs : List Char) :
    ∃ last : Layout, last.Fills (skip .blank cs).1 ∧ (last = .blank ∨ (skip .blank cs).2 = []) := by
  induction hlength : cs.length using Nat.strongRecOn generalizing cs with
  | ind n ih =>
    subst hlength
    cases cs with
    | nil => exact ⟨.blank, .nil, .inl rfl⟩
    | cons c cs =>
      by_cases hspace : Text.isSpace c = true
      · obtain ⟨last, hfills, hlast⟩ := ih cs.length (Nat.lt_succ_self _) cs rfl
        have hskip : skip .blank (c :: cs) = (c :: (skip .blank cs).1, (skip .blank cs).2) := by
          simp [skip, after?, hspace]
        rw [hskip]
        exact ⟨last, .space hspace hfills, hlast⟩
      by_cases hline : c = '-' ∧ cs.head? = some '-'
      · obtain ⟨rfl, hhead⟩ := hline
        obtain ⟨cs, rfl⟩ := List.head?_eq_some_iff.mp hhead
        have hskip : skip .blank ('-' :: '-' :: cs) =
            ('-' :: '-' :: (skip .line cs).1, (skip .line cs).2) := rfl
        rw [hskip]
        obtain ⟨hbody, heq⟩ | ⟨body, after, rfl, hbody, heq⟩ := skip_line cs
        · rw [heq]
          exact ⟨.line, .openLine hbody, .inr rfl⟩
        · obtain ⟨last, hfills, hlast⟩ := ih after.length (by simp; omega) after rfl
          rw [heq]
          exact ⟨last, .line hbody hfills, hlast⟩
      by_cases hblock : c = '/' ∧ cs.head? = some '*'
      · obtain ⟨rfl, hhead⟩ := hblock
        obtain ⟨cs, rfl⟩ := List.head?_eq_some_iff.mp hhead
        have hskip : skip .blank ('/' :: '*' :: cs) =
            ('/' :: '*' :: (skip .block cs).1, (skip .block cs).2) := rfl
        rw [hskip]
        obtain ⟨hbody, heq⟩ | ⟨body, after, rfl, hbody, heq⟩ := skip_block cs
        · rw [heq]
          exact ⟨.block, .openBlock hbody, .inr rfl⟩
        · obtain ⟨last, hfills, hlast⟩ := ih after.length (by simp; omega) after rfl
          rw [heq]
          exact ⟨last, .block hbody hfills, hlast⟩
      have hskip : skip .blank (c :: cs) = ([], c :: cs) := by
        simp [skip, after?, hspace, hline, hblock]
      rw [hskip]
      exact ⟨.blank, .nil, .inl rfl⟩

end Layout

/-! ## Tokens one behind the other -/

namespace Scanner

/-- The tokens that stand between one place of a text and another one, where the end is next. -/
inductive Cuts : Scanner → List Token → Scanner → Prop
  | finish {s} : s.next.1.kind = .eof → Cuts s [] s
  | token {s tokens last} : s.next.1.kind ≠ .eof → Cuts s.next.2 tokens last →
      Cuts s (s.next.1 :: tokens) last

theorem Cuts.of_next {s behind last : Scanner} {t : Token} {ts : List Token}
    (hnext : s.next = (t, behind)) (hne : t.kind ≠ .eof) (h : Cuts behind ts last) :
    Cuts s (t :: ts) last := by
  obtain rfl : s.next.1 = t := congrArg Prod.fst hnext
  obtain rfl : s.next.2 = behind := congrArg Prod.snd hnext
  exact .token hne h

theorem next_eof {s : Scanner} (h : (Layout.skip .blank s.rest).2 = []) :
    s.next = (⟨.eof, ⟨s.offset + Text.byteLength s.rest, s.offset + Text.byteLength s.rest⟩⟩,
      ⟨s.offset + Text.byteLength s.rest, []⟩) := by
  have hall := Layout.skip_append .blank s.rest
  rw [h, List.append_nil] at hall
  simp [next, h, hall]

theorem next_token {s : Scanner} {c : Char} {cs : List Char}
    (h : (Layout.skip .blank s.rest).2 = c :: cs) :
    ∃ start, start = s.offset + Text.byteLength (Layout.skip .blank s.rest).1 ∧
      s.next = (⟨(Lexeme.first c cs).kind,
          ⟨start, start + Text.byteLength (Lexeme.first c cs).chars⟩⟩,
        ⟨start + Text.byteLength (Lexeme.first c cs).chars, (Lexeme.first c cs).rest⟩) :=
  ⟨_, rfl, by simp [next, h]⟩

theorem next_eof_iff {s : Scanner} :
    s.next.1.kind = .eof ↔ (Layout.skip .blank s.rest).2 = [] := by
  constructor
  · intro h
    cases hskip : (Layout.skip .blank s.rest).2 with
    | nil => rfl
    | cons c cs =>
      obtain ⟨start, -, hnext⟩ := next_token hskip
      rw [hnext] at h
      exact absurd h (Lexeme.first_ne_eof c cs)
  · intro h
    rw [next_eof h]

/-- Before the end there is nothing but layout. -/
theorem rest_fills {s : Scanner} (h : s.next.1.kind = .eof) :
    ∃ last : Layout, last.Fills s.rest := by
  have hall := Layout.skip_append .blank s.rest
  obtain ⟨last, hfills, -⟩ := Layout.skip_fills s.rest
  rw [next_eof_iff.mp h, List.append_nil] at hall
  rw [hall] at hfills
  exact ⟨last, hfills⟩

/-- Behind a token there is less text than before it. -/
theorem next_shorter {s : Scanner} (h : s.next.1.kind ≠ .eof) :
    s.next.2.rest.length < s.rest.length := by
  cases hskip : (Layout.skip .blank s.rest).2 with
  | nil => exact absurd (next_eof_iff.mpr hskip) h
  | cons c cs =>
    obtain ⟨start, -, hnext⟩ := next_token hskip
    have hshort := Layout.skip_length .blank s.rest
    have hfirst := congrArg List.length (Lexeme.first_append c cs)
    have hchars := List.length_pos_iff.mpr (Lexeme.first_chars_ne_nil c cs)
    rw [hskip] at hshort
    rw [hnext]
    simp only [List.length_append, List.length_cons] at hshort hfirst ⊢
    omega

/-- As many tokens as there are characters are enough to reach the end. -/
theorem cuts_tokens {limit : Nat} {s : Scanner} (h : s.rest.length ≤ limit) :
    Cuts s (tokens limit s).1 (tokens limit s).2 := by
  induction limit generalizing s with
  | zero =>
    have hrest : s.rest = [] := List.eq_nil_of_length_eq_zero (Nat.le_zero.mp h)
    exact .finish (next_eof_iff.mpr (by rw [hrest]; rfl))
  | succ limit ih =>
    rw [tokens]
    dsimp only
    split
    · exact .finish ‹_›
    · rename_i hne
      have hshort := next_shorter hne
      exact .token hne (ih (by omega))

/-- The tokens up to the end are those that are found with any bound that is large enough. -/
theorem Cuts.tokens_eq {s last : Scanner} {ts : List Token} (h : Cuts s ts last) {limit : Nat}
    (hlimit : ts.length ≤ limit) : tokens limit s = (ts, last) := by
  induction h generalizing limit with
  | finish heof =>
    cases limit with
    | zero => rfl
    | succ limit => simp [tokens, heof]
  | token hne _ ih =>
    cases limit with
    | zero => simp at hlimit
    | succ limit =>
      have hrest : tokens limit _ = _ := ih (by simpa using hlimit)
      simp [tokens, hne, hrest]

theorem Cuts.lexes {s last : Scanner} {ts : List Token} (h : Cuts s ts last) :
    Token.Lexes s.rest (ts.map (·.kind)) := by
  induction h with
  | finish heof => exact .done (next_eof_iff.mp heof)
  | @token s ts last hne _ ih =>
    cases hskip : (Layout.skip .blank s.rest).2 with
    | nil => exact absurd (next_eof_iff.mpr hskip) hne
    | cons c cs =>
      obtain ⟨start, -, hnext⟩ := next_token hskip
      rw [hnext] at ih
      rw [List.map_cons, hnext]
      exact .token hskip ih

/-- The place behind so many tokens, where the end may be read again and again. -/
def after : Nat → Scanner → Scanner
  | 0, s => s
  | n + 1, s => after n s.next.2

theorem after_end {s : Scanner} (h : s.next.1.kind = .eof) (n : Nat) :
    (after n s).next.1 = s.next.1 := by
  have hagain : ∀ n offset, (after n ⟨offset, []⟩).next.1 = ⟨.eof, ⟨offset, offset⟩⟩ := by
    intro n offset
    induction n with
    | zero => rfl
    | succ n ih => exact ih
  cases n with
  | zero => rfl
  | succ n => rw [after, next_eof (next_eof_iff.mp h), hagain]

/-- The tokens are those that come when one asks for the next one again and again. -/
theorem Cuts.after_next {s last : Scanner} {ts : List Token} (h : Cuts s ts last) (n : Nat) :
    (after n s).next.1 = ts[n]?.getD last.next.1 := by
  induction h generalizing n with
  | finish heof => simpa using after_end heof n
  | token _ _ ih =>
    cases n with
    | zero => rfl
    | succ n => simpa [after] using ih n

end Scanner

/-! ## The bytes that tokens stand on -/

/-- The bytes of a part are those of its characters. -/
theorem Span.slice?_part {text : String} {front part back : List Char}
    (h : text.toList = front ++ (part ++ back)) :
    (Span.mk (Text.byteLength front) (Text.byteLength front + Text.byteLength part)).slice? text =
      some (String.ofList part) := by
  have hfront := Text.cutBytes?_append front (part ++ back)
  have hpart := Text.cutBytes?_append part back
  rw [← h] at hfront
  simp [slice?, length, hfront, hpart]

namespace Scanner

/-- The place lies in the text: its offset is that of the characters before it. -/
def In (s : Scanner) (text : String) : Prop :=
  ∃ front, text.toList = front ++ s.rest ∧ s.offset = Text.byteLength front

theorem in_start (text : String) : (start text).In text := ⟨[], rfl, rfl⟩

theorem In.end_eq {s : Scanner} {text : String} (h : s.In text) :
    s.offset + Text.byteLength s.rest = Text.byteLength text.toList := by
  obtain ⟨front, htext, hoffset⟩ := h
  rw [hoffset, htext, Text.byteLength_append]

/-- The rest of the text behind a place. -/
theorem In.slice_rest {s : Scanner} {text : String} (h : s.In text) :
    (Span.mk s.offset (Text.byteLength text.toList)).slice? text = some (String.ofList s.rest) := by
  have hend := h.end_eq
  obtain ⟨front, htext, hoffset⟩ := h
  have hparts : text.toList = front ++ (s.rest ++ []) := by rw [htext, List.append_nil]
  rw [← hend, hoffset]
  exact Span.slice?_part hparts

/-- The next token is the one at the front of the text behind the layout, and covers its characters. -/
theorem In.next_first {s : Scanner} {text : String} (h : s.In text) (hne : s.next.1.kind ≠ .eof) :
    ∃ front gap c cs, text.toList = front ++ (gap ++ c :: cs) ∧ s.offset = Text.byteLength front ∧
      Layout.blank.Fills gap ∧ Layout.after? .blank c cs = none ∧
      s.next.1 = ⟨(Lexeme.first c cs).kind, ⟨Text.byteLength (front ++ gap),
        Text.byteLength (front ++ gap ++ (Lexeme.first c cs).chars)⟩⟩ ∧
      s.next.2 = ⟨s.next.1.span.stop, (Lexeme.first c cs).rest⟩ := by
  obtain ⟨front, htext, hoffset⟩ := h
  cases hskip : (Layout.skip .blank s.rest).2 with
  | nil => exact absurd (next_eof_iff.mpr hskip) hne
  | cons c cs =>
    obtain ⟨start, hstart, hnext⟩ := next_token hskip
    have hall := Layout.skip_append .blank s.rest
    obtain ⟨last, hfills, hlast⟩ := Layout.skip_fills s.rest
    rw [hskip] at hall hlast
    obtain rfl : last = .blank := by simpa using hlast
    refine ⟨front, (Layout.skip .blank s.rest).1, c, cs, ?_, hoffset, hfills, Layout.skip_stops hskip,
      ?_, ?_⟩
    · rw [htext, hall]
    · simp only [hnext, hstart, hoffset, Text.byteLength_append]
    · rw [hnext]

/-- Up to the next token there is layout, it covers its characters, and behind it one is still in the
    text. -/
theorem In.next {s : Scanner} {text : String} (h : s.In text) (hne : s.next.1.kind ≠ .eof) :
    ∃ gap piece, Layout.blank.Fills gap ∧ Token.IsLexeme piece s.next.1.kind ∧
      s.next.1.kind.StandsOn piece ∧ s.next.2.In text ∧ s.next.2.offset = s.next.1.span.stop ∧
      s.offset ≤ s.next.1.span.start ∧ s.next.1.span.start < s.next.1.span.stop ∧
      (Span.mk s.offset s.next.1.span.start).slice? text = some (String.ofList gap) ∧
      s.next.1.span.slice? text = some (String.ofList piece) := by
  obtain ⟨front, gap, c, cs, htext, hoffset, hfills, hstop, htoken, hbehind⟩ := h.next_first hne
  have hpositive : 0 < Text.byteLength (Lexeme.first c cs).chars := by
    obtain ⟨ds, hds, -⟩ := Lexeme.first_alone c cs
    have := Char.utf8Size_pos c
    rw [hds, Text.byteLength_cons]
    omega
  rw [← Lexeme.first_append c cs] at htext
  have hgap := Span.slice?_part htext
  rw [← List.append_assoc] at htext
  have hpiece := Span.slice?_part htext
  rw [← Text.byteLength_append] at hgap hpiece
  rw [← hoffset] at hgap
  rw [hbehind, htoken]
  refine ⟨gap, (Lexeme.first c cs).chars, hfills, Token.isLexeme_first hstop,
    Lexeme.first_standsOn c cs, ?_, rfl, ?_, ?_, hgap, hpiece⟩
  · exact ⟨front ++ gap ++ (Lexeme.first c cs).chars, by rw [htext, ← List.append_assoc], rfl⟩
  · rw [hoffset, Text.byteLength_append]
    exact Nat.le_add_right ..
  · rw [Text.byteLength_append (front ++ gap)]
    exact Nat.lt_add_of_pos_right hpositive

end Scanner

namespace Token

/-- The spans between tokens and before the first of them, from a given byte on. -/
def gaps (start : Nat) : List Token → List Span
  | [] => []
  | token :: rest => ⟨start, token.span.start⟩ :: gaps token.span.stop rest

/-- The byte behind the last of the tokens. -/
def stop (start : Nat) : List Token → Nat
  | [] => start
  | token :: rest => stop token.span.stop rest

/-- The tokens stand in the text one behind the other from a given byte on, each on the characters
    of its kind and with nothing but layout between them. -/
structure Tiles (text : String) (start : Nat) (tokens : List Token) : Prop where
  token : ∀ t ∈ tokens, start ≤ t.span.start ∧ t.span.start < t.span.stop ∧ t.kind ≠ .eof ∧
    ∃ s, t.span.slice? text = some s ∧ t.kind.StandsOn s.toList ∧ IsLexeme s.toList t.kind
  apart : tokens.Pairwise fun t u => t.span.stop ≤ u.span.start
  gap : ∀ gap ∈ gaps start tokens, ∃ s, gap.slice? text = some s ∧ Layout.blank.Fills s.toList

theorem Tiles.cons {text : String} {start : Nat} {t : Token} {tokens : List Token}
    (h : Tiles text t.span.stop tokens) (hstart : start ≤ t.span.start)
    (hspan : t.span.start < t.span.stop) (heof : t.kind ≠ .eof)
    (hslice : ∃ s, t.span.slice? text = some s ∧ t.kind.StandsOn s.toList ∧ IsLexeme s.toList t.kind)
    (hgap : ∃ s, (Span.mk start t.span.start).slice? text = some s ∧ Layout.blank.Fills s.toList) :
    Tiles text start (t :: tokens) where
  token u hu := by
    obtain rfl | hu := List.mem_cons.mp hu
    · exact ⟨hstart, hspan, heof, hslice⟩
    · obtain ⟨hless, hrest⟩ := h.token u hu
      exact ⟨by omega, hrest⟩
  apart := List.pairwise_cons.mpr ⟨fun u hu => (h.token u hu).1, h.apart⟩
  gap g hg := by
    obtain rfl | hg := List.mem_cons.mp hg
    · exact hgap
    · exact h.gap g hg

theorem tiles_of_cuts {text : String} {s last : Scanner} {tokens : List Token}
    (h : s.Cuts tokens last) (hs : s.In text) :
    Tiles text s.offset tokens ∧ last.In text ∧ last.offset = stop s.offset tokens ∧
      last.next.1.kind = .eof := by
  induction h with
  | finish heof => exact ⟨⟨nofun, .nil, nofun⟩, hs, rfl, heof⟩
  | token hne _ ih =>
    obtain ⟨gap, piece, hfills, hlexeme, hstands, hin, hoffset, hstart, hspan, hgap, hslice⟩ :=
      hs.next hne
    obtain ⟨htiles, hlast, hstop, heof⟩ := ih hin
    rw [hoffset] at htiles hstop
    refine ⟨htiles.cons hstart hspan hne ⟨_, hslice, ?_⟩ ⟨_, hgap, ?_⟩, hlast, hstop, heof⟩
    · simpa using ⟨hstands, hlexeme⟩
    · simpa using hfills

/-- The characters of a token make up a text with that token alone. -/
theorem IsLexeme.tokenize_eq {s : String} {k : Kind} (h : IsLexeme s.toList k) :
    tokenize s = [⟨k, ⟨0, Text.byteLength s.toList⟩⟩,
      ⟨.eof, ⟨Text.byteLength s.toList, Text.byteLength s.toList⟩⟩] := by
  obtain ⟨c, ds, hs, hlayout, hfirst⟩ := h
  have hskip : Layout.skip .blank (Scanner.start s).rest = ([], c :: ds) := by
    rw [Scanner.start, hs, Layout.skip, hlayout]
  have hnext : (Scanner.start s).next =
      (⟨k, ⟨0, Text.byteLength s.toList⟩⟩, ⟨Text.byteLength s.toList, []⟩) := by
    obtain ⟨start, hstart, hnext⟩ := Scanner.next_token (congrArg Prod.snd hskip)
    rw [hnext, hfirst, hstart, hskip, ← hs]
    simp [Scanner.start]
  have hne : (Scanner.start s).next.1.kind ≠ .eof := by
    rw [hnext]
    have hkind := Lexeme.first_ne_eof c ds
    rwa [hfirst] at hkind
  have hcuts : (Scanner.start s).Cuts [⟨k, ⟨0, Text.byteLength s.toList⟩⟩]
      ⟨Text.byteLength s.toList, []⟩ := by
    have htail := Scanner.Cuts.token hne (.finish (by rw [hnext]; rfl))
    rwa [hnext] at htail
  have hlength : 1 ≤ s.length := by
    rw [← String.length_toList, hs]
    simp
  simp [tokenize, scan, hcuts.tokens_eq hlength, Scanner.next, Layout.skip]

/-- The tokens of a text before its end stand one behind the other, on the characters that their kinds
    say; each is determined by these characters, and all else is layout. The end stands behind the last
    byte, and is there again and again. -/
theorem tokenize_tiles (text : String) :
    ∃ tokens finish, tokenize text = tokens ++ [finish] ∧
      finish = ⟨.eof, ⟨Text.byteLength text.toList, Text.byteLength text.toList⟩⟩ ∧
      Tiles text 0 tokens ∧
      (∃ s, ∃ last : Layout, (Span.mk (stop 0 tokens) finish.span.start).slice? text = some s ∧
        last.Fills s.toList) ∧
      (∀ t ∈ tokens, ∃ s, t.span.slice? text = some s ∧ tokenize s =
        [⟨t.kind, ⟨0, Text.byteLength s.toList⟩⟩,
          ⟨.eof, ⟨Text.byteLength s.toList, Text.byteLength s.toList⟩⟩]) ∧
      ∀ n, ((Scanner.start text).after n).next.1 = tokens[n]?.getD finish := by
  have hcuts := Scanner.cuts_tokens (s := Scanner.start text) (Nat.le_of_eq String.length_toList)
  obtain ⟨htiles, hin, hstop, heof⟩ := tiles_of_cuts hcuts (Scanner.in_start text)
  have hfinish := Scanner.next_eof (Scanner.next_eof_iff.mp heof)
  rw [hin.end_eq] at hfinish
  refine ⟨_, _, rfl, congrArg Prod.fst hfinish, htiles, ?_, ?_, hcuts.after_next⟩
  · obtain ⟨last, hfills⟩ := Scanner.rest_fills heof
    refine ⟨String.ofList ((Scanner.start text).tokens text.length).2.rest, last, ?_, ?_⟩
    · have hrest := hin.slice_rest
      rw [hfinish]
      rwa [hstop] at hrest
    · rwa [String.toList_ofList]
  · intro t ht
    obtain ⟨-, -, -, s, hs, -, hlexeme⟩ := htiles.token t ht
    exact ⟨s, hs, hlexeme.tokenize_eq⟩

end Token

end SqlFront
