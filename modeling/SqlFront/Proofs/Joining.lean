import SqlFront.Proofs.Tiling

/-! # Texts behind one another

Main statement: a text in front of a semicolon on a line of its own keeps its tokens, and a text behind
it keeps them too, farther on by the bytes in front of it. A comment or quote that is still open at the
end of the first text would take in the rest and is left out.
-/

namespace SqlFront

/-! ## Layout with something behind it -/

namespace Layout

open Token

section

variable {after : List Char} (h : Break after)

include h

/-- What is skipped before a token does not change with a break behind the text. -/
theorem skip_before {layout : Layout} {cs : List Char} {c : Char} {ds : List Char}
    (hskip : (layout.skip cs).2 = c :: ds) :
    layout.skip (cs ++ after) = ((layout.skip cs).1, c :: (ds ++ after)) := by
  induction cs generalizing layout with
  | nil => cases hskip
  | cons d cs ih =>
    rw [skip] at hskip
    rw [List.cons_append, skip, skip]
    split at hskip
    · rename_i hstop
      obtain ⟨rfl, rfl⟩ := List.cons.inj hskip
      cases layout with
      | blank => simp only [Lexeme.after?_before h hstop]
      | line | opening | block | closing => simp [after?] at hstop
    · rename_i next hnext
      have hhead : (cs ++ after).head? = cs.head? := by
        cases cs with
        | nil => cases hskip
        | cons => rfl
      have hsame : layout.after? d (cs ++ after) = layout.after? d cs := by
        cases layout <;> simp only [after?, hhead]
      simp only [hsame, hnext, ih hskip]

end

theorem skip_line_to {body : List Char} (h : '\n' ∉ body) (after : List Char) :
    skip .line (body ++ '\n' :: after) =
      (body ++ '\n' :: (skip .blank after).1, (skip .blank after).2) := by
  induction body with
  | nil => rfl
  | cons c body ih =>
    obtain ⟨hc, hbody⟩ := not_or.mp (mt List.mem_cons.mpr h)
    simp [skip, after?, Ne.symm hc, ih hbody]

theorem skip_block_to {body : List Char} (h : ¬ ['*', '/'] <:+: body) (after : List Char) :
    skip .block (body ++ '*' :: '/' :: after) =
      (body ++ '*' :: '/' :: (skip .blank after).1, (skip .blank after).2) := by
  induction body with
  | nil => rfl
  | cons c body ih =>
    rw [List.infix_cons_iff, not_or] at h
    have hopen : ¬ (c = '*' ∧ (body ++ '*' :: '/' :: after).head? = some '/') := by
      rintro ⟨rfl, hhead⟩
      cases body with
      | nil => cases hhead
      | cons d body =>
        obtain rfl : d = '/' := Option.some.inj hhead
        exact h.1 ⟨body, rfl⟩
    rw [List.cons_append, skip]
    simp only [after?, if_neg hopen, ih h.2, List.cons_append]

/-- Layout ends with the line, unless a comment between signs is still open. -/
theorem Fills.skip_newline {last : Layout} {cs : List Char} (h : last.Fills cs) (hlast : last ≠ .block)
    (after : List Char) : skip .blank (cs ++ '\n' :: after) =
      (cs ++ '\n' :: (skip .blank after).1, (skip .blank after).2) := by
  induction h with
  | nil => rfl
  | @space _ c cs hspace _ ih => simp [skip, after?, hspace, ih hlast]
  | @line _ body cs hbody _ ih =>
    have hline : skip .blank ('-' :: '-' :: (body ++ '\n' :: (cs ++ '\n' :: after))) =
        ('-' :: '-' :: (skip .line (body ++ '\n' :: (cs ++ '\n' :: after))).1,
          (skip .line (body ++ '\n' :: (cs ++ '\n' :: after))).2) := rfl
    simp only [List.cons_append, List.append_assoc]
    rw [hline, skip_line_to hbody, ih hlast]
  | @block _ body cs hbody _ ih =>
    have hblock : skip .blank ('/' :: '*' :: (body ++ '*' :: '/' :: (cs ++ '\n' :: after))) =
        ('/' :: '*' :: (skip .block (body ++ '*' :: '/' :: (cs ++ '\n' :: after))).1,
          (skip .block (body ++ '*' :: '/' :: (cs ++ '\n' :: after))).2) := rfl
    simp only [List.cons_append, List.append_assoc]
    rw [hblock, skip_block_to hbody, ih hlast]
  | @openLine body hbody =>
    have hline : skip .blank ('-' :: '-' :: (body ++ '\n' :: after)) =
        ('-' :: '-' :: (skip .line (body ++ '\n' :: after)).1,
          (skip .line (body ++ '\n' :: after)).2) := rfl
    simp only [List.cons_append]
    rw [hline, skip_line_to hbody]
  | openBlock => exact absurd rfl hlast

end Layout

/-! ## Tokens with something behind them, or in front -/

/-- The span so many bytes farther on. -/
def Span.shift (bytes : Nat) (s : Span) : Span := ⟨s.start + bytes, s.stop + bytes⟩

/-- The token so many bytes farther on. -/
def Token.shift (bytes : Nat) (t : Token) : Token := ⟨t.kind, t.span.shift bytes⟩

namespace Scanner

open Token

/-- The place if more text stands behind. -/
def before (s : Scanner) (after : List Char) : Scanner := ⟨s.offset, s.rest ++ after⟩

/-- The place if so many bytes stand in front. -/
def shift (bytes : Nat) (s : Scanner) : Scanner := ⟨s.offset + bytes, s.rest⟩

theorem next_before {s : Scanner} {after : List Char} (h : Break after) (hne : s.next.1.kind ≠ .eof)
    (hclosed : ¬ s.next.1.kind.Unclosed) :
    (s.before after).next = (s.next.1, s.next.2.before after) := by
  cases hskip : (Layout.skip .blank s.rest).2 with
  | nil => exact absurd (next_eof_iff.mpr hskip) hne
  | cons c cs =>
    obtain ⟨start, hstart, hnext⟩ := next_token hskip
    have hbefore := Layout.skip_before h hskip
    obtain ⟨start', hstart', hnext'⟩ := next_token (s := s.before after) (congrArg Prod.snd hbefore)
    rw [hnext] at hclosed
    have hstarts : start' = start := by rw [hstart', hstart, before, hbefore]
    rw [hnext', hnext, hstarts, Lexeme.first_before h hclosed]
    rfl

/-- The tokens of a text and those behind it. -/
theorem Cuts.append {s mid last : Scanner} {ts us : List Token} {after : List Char}
    (h : Cuts s ts mid) (hbreak : Break after) (hclosed : ∀ t ∈ ts, ¬ t.kind.Unclosed)
    (hrest : Cuts (mid.before after) us last) : Cuts (s.before after) (ts ++ us) last := by
  induction h with
  | finish => exact hrest
  | token hne _ ih =>
    exact .of_next (next_before hbreak hne (hclosed _ (List.mem_cons_self ..))) hne
      (ih (fun t ht => hclosed t (List.mem_cons_of_mem _ ht)) hrest)

theorem next_shift (bytes : Nat) (s : Scanner) :
    (s.shift bytes).next = (s.next.1.shift bytes, s.next.2.shift bytes) := by
  cases hskip : (Layout.skip .blank s.rest).2 with
  | nil =>
    rw [next_eof hskip, next_eof (s := s.shift bytes) hskip]
    simp only [shift, Token.shift, Span.shift, Nat.add_right_comm]
  | cons c cs =>
    obtain ⟨start, hstart, hnext⟩ := next_token hskip
    obtain ⟨start', hstart', hnext'⟩ := next_token (s := s.shift bytes) hskip
    have hstarts : start' = start + bytes := by
      rw [hstart', hstart, shift]
      exact Nat.add_right_comm ..
    rw [hnext, hnext', hstarts]
    simp only [shift, Token.shift, Span.shift, Nat.add_right_comm]

theorem Cuts.shift {s last : Scanner} {ts : List Token} (h : Cuts s ts last) (bytes : Nat) :
    Cuts (s.shift bytes) (ts.map (·.shift bytes)) (last.shift bytes) := by
  induction h with
  | finish heof => exact .finish (by rw [next_shift]; exact heof)
  | token hne _ ih => exact .of_next (next_shift bytes _) hne ih

/-- Where the next token is the same, all tokens are. -/
theorem Cuts.same_next {s s' last : Scanner} {ts : List Token} (h : Cuts s ts last)
    (hnext : s'.next = s.next) : ∃ last', Cuts s' ts last' ∧ last'.next = last.next := by
  cases h with
  | finish heof => exact ⟨s', .finish (hnext ▸ heof), hnext⟩
  | token hne hrest =>
    rw [← hnext] at hne hrest ⊢
    exact ⟨last, .token hne hrest, rfl⟩

/-- White space in front of the next token. -/
theorem next_space {offset : Nat} {c : Char} {cs : List Char} (h : Text.isSpace c = true) :
    next ⟨offset, c :: cs⟩ = next ⟨offset + c.utf8Size, cs⟩ := by
  have hskip : Layout.skip .blank (c :: cs) =
      (c :: (Layout.skip .blank cs).1, (Layout.skip .blank cs).2) := by
    simp [Layout.skip, Layout.after?, h]
  simp only [next, hskip, Text.byteLength_cons, Nat.add_assoc]

/-- A semicolon on a line of its own, behind layout. -/
theorem next_semicolon {s : Scanner} {layout : Layout} (hfills : layout.Fills s.rest)
    (hlayout : layout ≠ .block) (rest : List Char) :
    (s.before ('\n' :: ';' :: rest)).next =
      (⟨.symbol .semicolon, ⟨s.offset + Text.byteLength s.rest + 1,
        s.offset + Text.byteLength s.rest + 2⟩⟩, ⟨s.offset + Text.byteLength s.rest + 2, rest⟩) := by
  have hskip : Layout.skip .blank (s.before ('\n' :: ';' :: rest)).rest =
      (s.rest ++ ['\n'], ';' :: rest) := hfills.skip_newline hlayout (';' :: rest)
  obtain ⟨start, hstart, hnext⟩ := next_token (congrArg Prod.snd hskip)
  have hlength : Text.byteLength ['\n'] = 1 := rfl
  rw [hskip, Text.byteLength_append, hlength] at hstart
  rw [hnext, hstart]
  rfl

end Scanner

/-! ## Texts with a semicolon between them -/

namespace Token

/-- What is left of a text behind its last token. -/
def trailing (text : String) : List Char :=
  ((Scanner.start text).tokens text.length).2.rest

/-- The tokens of a text and its end, if its tokens have been found in any way. -/
theorem scan_of_cuts {text : String} {last : Scanner} {ts : List Token}
    (h : (Scanner.start text).Cuts ts last) : scan text = (ts, last.next.1) := by
  have hlength := h.lexes.length_le
  rw [List.length_map] at hlength
  have hlimit : ts.length ≤ text.length := String.length_toList ▸ hlength
  rw [scan, h.tokens_eq hlimit]

theorem scan_joined {first : String} (second : String) (hblock : ¬ Layout.block.Fills (trailing first))
    (hclosed : ∀ t ∈ (scan first).1, ¬ t.kind.Unclosed) :
    scan (first ++ "\n;\n" ++ second) =
      ((scan first).1 ++ ⟨.symbol .semicolon,
          ⟨Text.byteLength first.toList + 1, Text.byteLength first.toList + 2⟩⟩ ::
        (scan second).1.map (·.shift (Text.byteLength first.toList + 3)),
        (scan second).2.shift (Text.byteLength first.toList + 3)) := by
  have hfirst := Scanner.cuts_tokens (s := Scanner.start first) (Nat.le_of_eq String.length_toList)
  have hsecond := Scanner.cuts_tokens (s := Scanner.start second) (Nat.le_of_eq String.length_toList)
  obtain ⟨-, hin, -, heof⟩ := tiles_of_cuts hfirst (Scanner.in_start first)
  obtain ⟨layout, hfills⟩ := Scanner.rest_fills heof
  have hlayout : layout ≠ .block := by
    rintro rfl
    exact hblock hfills
  have hsemicolon := Scanner.next_semicolon hfills hlayout ('\n' :: second.toList)
  rw [hin.end_eq] at hsemicolon
  have hbehind : Scanner.next ⟨Text.byteLength first.toList + 2, '\n' :: second.toList⟩ =
      ((Scanner.start second).shift (Text.byteLength first.toList + 3)).next := by
    rw [Scanner.next_space rfl, Scanner.start, Scanner.shift, Nat.zero_add]
    rfl
  obtain ⟨last, htail, hlast⟩ := (hsecond.shift _).same_next hbehind
  have hstart : Scanner.start (first ++ "\n;\n" ++ second) =
      (Scanner.start first).before ('\n' :: ';' :: '\n' :: second.toList) := by
    simp [Scanner.start, Scanner.before]
  have hcuts := hfirst.append (break_newline _) hclosed (.of_next hsemicolon (by simp) htail)
  rw [← hstart] at hcuts
  rw [scan_of_cuts hcuts, hlast, Scanner.next_shift]
  rfl

end Token

end SqlFront
