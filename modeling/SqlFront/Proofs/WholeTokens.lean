import Mathlib.Data.List.TakeWhile
import SqlFront.Proofs.Lexing

/-! # Tokens by themselves

What a token is depends on its characters alone. Main statements: the characters of a token, read by
themselves, are that token again; and white space behind a text changes none of its tokens, unless the
last of them lacks its closing quote.
-/

namespace SqlFront

namespace Token

/-- A string literal or quoted name without its closing quote. It goes on for as long as there are
    characters. -/
def Kind.Unclosed (k : Kind) : Prop := k = .invalid .openString ∨ k = .invalid .openName

instance (k : Kind) : Decidable k.Unclosed := inferInstanceAs (Decidable (_ ∨ _))

/-- What a token of the given kind is written as. -/
def Kind.StandsOn : Kind → List Char → Prop
  | .number text, cs => cs = text.toList
  | .string value, cs => cs = '\x27' :: (Text.doubled '\x27' value.toList ++ ['\x27'])
  | .name text, cs => cs = text.toList ∧ ∀ word : Keyword, Text.upper text ≠ word.text
  | .keyword word, cs => Text.upper (String.ofList cs) = word.text
  | .symbol sign, cs => cs = sign.text.toList
  | .eof, cs => cs = []
  | .invalid .openString, cs => ∃ ds, cs = '\x27' :: ds ∧ Text.cutQuoted? '\x27' ds = none
  | .invalid .openName, cs => ∃ ds, cs = '\x22' :: ds ∧ Text.cutQuoted? '\x22' ds = none
  | .invalid (.stray c), cs => cs = [c]

/-- What no closed token goes on into: nothing, a space or the end of a line. -/
def Break (cs : List Char) : Prop := ∀ c ∈ cs.head?, c = ' ' ∨ c = '\n'

theorem break_space (cs : List Char) : Break (' ' :: cs) := by
  intro c hc
  exact .inl (Option.some.inj hc).symm

theorem break_newline (cs : List Char) : Break ('\n' :: cs) := by
  intro c hc
  exact .inr (Option.some.inj hc).symm

/-- What holds of the two breaking characters holds of whatever a break starts with. -/
theorem Break.head {cs : List Char} (h : Break cs) {p : Char → Prop} (hspace : p ' ')
    (hnewline : p '\n') : ∀ c ∈ cs.head?, p c := by
  intro c hc
  obtain rfl | rfl := h c hc
  · exact hspace
  · exact hnewline

/-- What a break can be. -/
theorem Break.cases {cs : List Char} (h : Break cs) :
    cs = [] ∨ (∃ rest, cs = ' ' :: rest) ∨ ∃ rest, cs = '\n' :: rest := by
  cases cs with
  | nil => exact .inl rfl
  | cons c rest =>
    obtain rfl | rfl := h c rfl
    · exact .inr (.inl ⟨rest, rfl⟩)
    · exact .inr (.inr ⟨rest, rfl⟩)

end Token

namespace Text

theorem takeWhile_before {p : Char → Bool} {after : List Char}
    (h : ∀ c ∈ after.head?, p c = false) (cs : List Char) :
    (cs ++ after).takeWhile p = cs.takeWhile p ∧
      (cs ++ after).dropWhile p = cs.dropWhile p ++ after := by
  induction cs with
  | nil => exact ⟨Token.takeWhile_of_head h, Token.dropWhile_of_head h⟩
  | cons c cs ih =>
    cases hc : p c with
    | false => simp [hc]
    | true => simp [hc, ih]

/-- A quoted text ends where it ends without the break behind it. -/
theorem cutQuoted?_before {quote : Char} {after : List Char} (h : ∀ c ∈ after.head?, c ≠ quote)
    {cs inside rest : List Char} (hcut : cutQuoted? quote cs = some (inside, rest)) :
    cutQuoted? quote (cs ++ after) = some (inside, rest ++ after) := by
  fun_induction cutQuoted? quote cs generalizing inside with
  | case1 => cases hcut
  | case2 =>
    cases hcut
    cases after with
    | nil => simp [cutQuoted?]
    | cons d after =>
      have hd : d ≠ quote := h d rfl
      simp [cutQuoted?, hd]
  | case3 => cases hcut
  | case4 tail ih =>
    obtain ⟨⟨inside, after⟩, hcut, heq⟩ := Option.map_eq_some_iff.mp hcut
    cases heq
    simp [cutQuoted?, ih hcut]
  | case5 c tail hc =>
    cases hcut
    simp [cutQuoted?, hc]
  | case6 c d tail hc ih =>
    obtain ⟨⟨inside, after⟩, hcut, heq⟩ := Option.map_eq_some_iff.mp hcut
    cases heq
    have hfront := ih hcut
    rw [List.cons_append] at hfront
    simp [cutQuoted?, hc, hfront]

/-- What has been cut off up to a closing quote is cut off again. -/
theorem cutQuoted?_alone {quote : Char} {cs inside rest : List Char}
    (h : cutQuoted? quote cs = some (inside, rest)) :
    cutQuoted? quote (inside ++ [quote]) = some (inside, []) := by
  obtain ⟨value, rfl⟩ := cutQuoted?_some h
  exact cutQuoted?_doubled quote value [] (by simp)

end Text

namespace Lexeme

open Token

/-- The ways in which the token that starts with a character is read. -/
inductive Shape (c : Char) : (List Char → Lexeme) → Prop
  | single (k : Kind) : k.StandsOn [c] → Shape c fun cs => ⟨k, [c], cs⟩
  | oneOrTwo (one : Kind) (longer : List (Char × Symbol)) : one.StandsOn [c] →
      (∀ two ∈ longer, two.2.text = String.ofList [c, two.1]) → longer.lookup ' ' = none →
      longer.lookup '\n' = none → Shape c (oneOrTwo c one longer)
  | point : c = '.' → Shape c fun cs =>
      if cs.head?.any Char.isDigit then number (c :: cs) else ⟨.symbol .dot, [c], cs⟩
  | string : c = '\x27' → Shape c string
  | quotedName : c = '\x22' → Shape c quotedName
  | digit : c.isDigit = true → Shape c fun cs => number (c :: cs)
  | word : startsName c = true → Shape c (word c)

theorem first_shape (c : Char) : Shape c (first c) := by
  by_cases hsingle : c ∈ ['(', ')', ',', ';', '+', '-', '/', '=', '#', '?']
  · simp only [List.mem_cons, List.not_mem_nil, or_false] at hsingle
    obtain rfl | rfl | rfl | rfl | rfl | rfl | rfl | rfl | rfl | rfl := hsingle <;> exact .single _ rfl
  by_cases hdouble : c ∈ ['*', '<', '>', '!', '|']
  · simp only [List.mem_cons, List.not_mem_nil, or_false] at hdouble
    obtain rfl | rfl | rfl | rfl | rfl := hdouble <;>
      exact .oneOrTwo _ _ rfl (by decide) rfl rfl
  by_cases hother : c ∈ ['.', '\x27', '\x22']
  · simp only [List.mem_cons, List.not_mem_nil, or_false] at hother
    obtain rfl | rfl | rfl := hother
    · exact .point rfl
    · exact .string rfl
    · exact .quotedName rfl
  have hdefault : first c = fun cs =>
      if c.isDigit then number (c :: cs)
      else if startsName c then Lexeme.word c cs
      else ⟨.invalid (.stray c), [c], cs⟩ := by
    funext cs
    unfold first
    split <;> first
      | rfl
      | simp at hsingle hdouble hother
  rw [hdefault]
  by_cases hdigit : c.isDigit = true
  · simpa [hdigit] using .digit hdigit
  · by_cases hname : startsName c = true
    · simpa [hdigit, hname] using .word hname
    · simpa [hdigit, hname] using .single _ rfl

/-! ## A break behind the text -/

/-- The same token with more text behind it. -/
def before (l : Lexeme) (after : List Char) : Lexeme := { l with rest := l.rest ++ after }

section

variable {after : List Char} (h : Break after)

include h

theorem head_before (cs : List Char) :
    (cs ++ after).head?.any Char.isDigit = cs.head?.any Char.isDigit := by
  cases cs with
  | nil => obtain rfl | ⟨rest, rfl⟩ | ⟨rest, rfl⟩ := h.cases <;> rfl
  | cons d ds => rfl

theorem fraction_before (cs : List Char) :
    fraction (cs ++ after) = ((fraction cs).1, (fraction cs).2 ++ after) := by
  cases cs with
  | nil => obtain rfl | ⟨rest, rfl⟩ | ⟨rest, rfl⟩ := h.cases <;> rfl
  | cons c cs =>
    by_cases hc : c = '.'
    · subst hc
      cases cs with
      | nil => obtain rfl | ⟨rest, rfl⟩ | ⟨rest, rfl⟩ := h.cases <;> rfl
      | cons d ds =>
        obtain ⟨htake, hdrop⟩ := Text.takeWhile_before (p := Char.isDigit) (h.head rfl rfl) (d :: ds)
        rw [List.cons_append] at htake hdrop
        rw [List.cons_append, List.cons_append, fraction, fraction, htake, hdrop]
        split <;> rfl
    · simp [fraction, hc]

theorem sign_before (cs : List Char) : sign (cs ++ after) = ((sign cs).1, (sign cs).2 ++ after) := by
  cases cs with
  | nil => obtain rfl | ⟨rest, rfl⟩ | ⟨rest, rfl⟩ := h.cases <;> rfl
  | cons c cs =>
    by_cases hplus : c = '+'
    · subst hplus
      rfl
    · by_cases hminus : c = '-'
      · subst hminus
        rfl
      · simp [sign, hplus, hminus]

theorem exponent_before (cs : List Char) :
    exponent (cs ++ after) = ((exponent cs).1, (exponent cs).2 ++ after) := by
  cases cs with
  | nil => obtain rfl | ⟨rest, rfl⟩ | ⟨rest, rfl⟩ := h.cases <;> rfl
  | cons e cs =>
    obtain ⟨htake, hdrop⟩ := Text.takeWhile_before (p := Char.isDigit) (h.head rfl rfl) (sign cs).2
    rw [List.cons_append, exponent, exponent]
    simp only [sign_before h cs, head_before h, htake, hdrop]
    split <;> rfl

theorem number_before (cs : List Char) : number (cs ++ after) = (number cs).before after := by
  obtain ⟨htake, hdrop⟩ := Text.takeWhile_before (p := Char.isDigit) (h.head rfl rfl) cs
  simp only [number, before, htake, hdrop, fraction_before h, exponent_before h]

theorem word_before (c : Char) (cs : List Char) :
    word c (cs ++ after) = (word c cs).before after := by
  obtain ⟨htake, hdrop⟩ := Text.takeWhile_before (p := continuesName)
    (h.head (by decide) (by decide)) cs
  simp only [word, before, htake, hdrop]

theorem string_before {cs : List Char} (hclosed : ¬ (string cs).kind.Unclosed) :
    string (cs ++ after) = (string cs).before after := by
  unfold string at hclosed ⊢
  split at hclosed
  · rename_i hcut
    rw [Text.cutQuoted?_before (h.head (by decide) (by decide)) hcut]
    rfl
  · exact absurd (.inl rfl) hclosed

theorem quotedName_before {cs : List Char} (hclosed : ¬ (quotedName cs).kind.Unclosed) :
    quotedName (cs ++ after) = (quotedName cs).before after := by
  unfold quotedName at hclosed ⊢
  split at hclosed
  · rename_i hcut
    rw [Text.cutQuoted?_before (h.head (by decide) (by decide)) hcut]
    rfl
  · exact absurd (.inr rfl) hclosed

theorem oneOrTwo_before (c : Char) (one : Kind) {longer : List (Char × Symbol)}
    (hspace : longer.lookup ' ' = none) (hnewline : longer.lookup '\n' = none) (cs : List Char) :
    oneOrTwo c one longer (cs ++ after) = (oneOrTwo c one longer cs).before after := by
  cases cs with
  | nil =>
    obtain rfl | ⟨rest, rfl⟩ | ⟨rest, rfl⟩ := h.cases
    · rfl
    · simp [oneOrTwo, before, hspace]
    · simp [oneOrTwo, before, hnewline]
  | cons d cs =>
    rw [List.cons_append, oneOrTwo, oneOrTwo]
    split <;> rfl

/-- A closed token ends where it ends without the break behind the text. -/
theorem first_before {c : Char} {cs : List Char} (hclosed : ¬ (first c cs).kind.Unclosed) :
    first c (cs ++ after) = (first c cs).before after := by
  have hshape := first_shape c
  generalize first c = read at hshape hclosed
  cases hshape with
  | single _ => rfl
  | oneOrTwo one longer _ _ hspace hnewline => exact oneOrTwo_before h c one hspace hnewline cs
  | point _ =>
    simp only [head_before h]
    split
    · exact number_before h (c :: cs)
    · rfl
  | string _ => exact string_before h hclosed
  | quotedName _ => exact quotedName_before h hclosed
  | digit _ => exact number_before h (c :: cs)
  | word _ => exact word_before h c cs

/-- No layout starts at a token, whatever break stands behind the text. -/
theorem after?_before {c : Char} {cs : List Char} (hc : Layout.after? .blank c cs = none) :
    Layout.after? .blank c (cs ++ after) = none := by
  cases cs with
  | nil =>
    have hspace : Text.isSpace c = false := by simpa [Layout.after?] using hc
    obtain rfl | ⟨rest, rfl⟩ | ⟨rest, rfl⟩ := h.cases <;> simp [Layout.after?, hspace]
  | cons d ds => exact hc

end

/-! ## Nothing behind the token -/

theorem number_alone (cs : List Char) :
    number (number cs).chars = ⟨(number cs).kind, (number cs).chars, []⟩ := by
  have hwhole : ∀ c ∈ cs.takeWhile Char.isDigit, c.isDigit = true :=
    fun c hc => (List.all_eq_true.mp List.all_takeWhile) c hc
  have hparts := number_of_parts hwhole (fraction_spelled (cs.dropWhile Char.isDigit))
    (exponent_spelled (fraction (cs.dropWhile Char.isDigit)).2) boundary_nil
  simpa [number] using hparts

theorem word_alone (c : Char) (cs : List Char) :
    word c (cs.takeWhile continuesName) = ⟨(word c cs).kind, (word c cs).chars, []⟩ := by
  have hdrop : (cs.takeWhile continuesName).dropWhile continuesName = [] :=
    List.dropWhile_eq_nil_iff.mpr fun d hd => (List.all_eq_true.mp List.all_takeWhile) d hd
  simp only [word, List.takeWhile_idem, hdrop]

theorem string_alone (cs : List Char) :
    ∃ ds, (string cs).chars = '\x27' :: ds ∧ string ds = ⟨(string cs).kind, '\x27' :: ds, []⟩ := by
  cases hcut : Text.cutQuoted? '\x27' cs with
  | none => exact ⟨cs, by simp [string, hcut], by simp [string, hcut]⟩
  | some parts =>
    have halone := Text.cutQuoted?_alone hcut
    exact ⟨parts.1 ++ ['\x27'], by simp [string, hcut], by simp [string, hcut, halone]⟩

theorem quotedName_alone (cs : List Char) :
    ∃ ds, (quotedName cs).chars = '\x22' :: ds ∧
      quotedName ds = ⟨(quotedName cs).kind, '\x22' :: ds, []⟩ := by
  cases hcut : Text.cutQuoted? '\x22' cs with
  | none => exact ⟨cs, by simp [quotedName, hcut], by simp [quotedName, hcut]⟩
  | some parts =>
    have halone := Text.cutQuoted?_alone hcut
    exact ⟨parts.1 ++ ['\x22'], by simp [quotedName, hcut], by simp [quotedName, hcut, halone]⟩

theorem oneOrTwo_alone (c : Char) (one : Kind) (longer : List (Char × Symbol)) (cs : List Char) :
    ∃ ds, (oneOrTwo c one longer cs).chars = c :: ds ∧
      oneOrTwo c one longer ds = ⟨(oneOrTwo c one longer cs).kind, c :: ds, []⟩ := by
  cases cs with
  | nil => exact ⟨[], rfl, rfl⟩
  | cons d rest =>
    cases hlookup : longer.lookup d with
    | none => exact ⟨[], by simp [oneOrTwo, hlookup], by simp [oneOrTwo, hlookup]⟩
    | some two => exact ⟨[d], by simp [oneOrTwo, hlookup], by simp [oneOrTwo, hlookup]⟩

/-- A number starts with the character that it is read from. -/
theorem number_chars {c : Char} {cs : List Char}
    (h : c.isDigit = true ∨ c = '.' ∧ cs.head?.any Char.isDigit = true) :
    ∃ ds, (number (c :: cs)).chars = c :: ds ∧
      (c.isDigit = true ∨ c = '.' ∧ ds.head?.any Char.isDigit = true) := by
  obtain hc | ⟨rfl, hdigit⟩ := h
  · exact ⟨_, by rw [number, List.takeWhile_cons_of_pos hc]; rfl, .inl hc⟩
  · cases cs with
    | nil => simp at hdigit
    | cons d ds =>
      have hd : d.isDigit = true := by simpa using hdigit
      have hpoint : ('.' : Char).isDigit = false := rfl
      refine ⟨d :: (ds.takeWhile Char.isDigit ++ (exponent (ds.dropWhile Char.isDigit)).1), ?_,
        .inr ⟨rfl, by simpa using hd⟩⟩
      simp [number, fraction, hd, hpoint]

theorem first_number_alone {c : Char} {cs : List Char}
    (h : c.isDigit = true ∨ c = '.' ∧ cs.head?.any Char.isDigit = true) :
    ∃ ds, (number (c :: cs)).chars = c :: ds ∧
      first c ds = ⟨(number (c :: cs)).kind, c :: ds, []⟩ := by
  obtain ⟨ds, hds, hstart⟩ := number_chars h
  have halone := number_alone (c :: cs)
  rw [hds] at halone
  exact ⟨ds, hds, by rw [first_of_number hstart, halone]⟩

/-- The characters of a token, by themselves, are that token. -/
theorem first_alone (c : Char) (cs : List Char) :
    ∃ ds, (first c cs).chars = c :: ds ∧ first c ds = ⟨(first c cs).kind, c :: ds, []⟩ := by
  have hshape := first_shape c
  generalize hread : first c = read at hshape ⊢
  cases hshape with
  | single _ => exact ⟨[], rfl, rfl⟩
  | oneOrTwo one longer _ _ _ _ => exact oneOrTwo_alone c one longer cs
  | point hc =>
    simp only
    split
    · have halone := first_number_alone (.inr ⟨hc, ‹cs.head?.any Char.isDigit = true›⟩)
      rwa [hread] at halone
    · exact ⟨[], rfl, rfl⟩
  | string hc =>
    subst hc
    exact string_alone cs
  | quotedName hc =>
    subst hc
    exact quotedName_alone cs
  | digit hc =>
    have halone := first_number_alone (c := c) (.inl hc : _ ∨ _ ∧ cs.head?.any Char.isDigit = true)
    rwa [hread] at halone
  | word _ => exact ⟨_, rfl, word_alone c cs⟩

/-! ## What tokens are written as -/

theorem wordKind_standsOn (cs : List Char) : (wordKind (String.ofList cs)).StandsOn cs := by
  unfold wordKind
  split
  · rename_i word hword
    exact (Keyword.text_of_ofText? hword).symm
  · rename_i hfree
    refine ⟨String.toList_ofList.symm, fun word hword => ?_⟩
    have hother := List.find?_eq_none.mp hfree word (Keyword.mem_reserved word)
    exact hother (beq_iff_eq.mpr hword.symm)

theorem string_standsOn (cs : List Char) : (string cs).kind.StandsOn (string cs).chars := by
  unfold string
  split
  · rename_i hcut
    obtain ⟨value, rfl⟩ := Text.cutQuoted?_some hcut
    simp [Kind.StandsOn, Text.undoubled_doubled]
  · rename_i hcut
    exact ⟨cs, rfl, hcut⟩

theorem quotedName_standsOn (cs : List Char) :
    (quotedName cs).kind.StandsOn (quotedName cs).chars := by
  unfold quotedName
  split
  · refine ⟨String.toList_ofList.symm, fun word hword => ?_⟩
    have hquote : ∀ word ∈ Keyword.reserved, word.text.toList.head? ≠ some '\x22' := by decide
    refine hquote word (Keyword.mem_reserved word) ?_
    rw [← hword, Text.upper, String.toList_ofList, String.toList_ofList]
    rfl
  · rename_i hcut
    exact ⟨cs, rfl, hcut⟩

theorem oneOrTwo_standsOn {c : Char} {one : Kind} {longer : List (Char × Symbol)}
    (hone : one.StandsOn [c]) (htwo : ∀ two ∈ longer, two.2.text = String.ofList [c, two.1])
    (cs : List Char) : (oneOrTwo c one longer cs).kind.StandsOn (oneOrTwo c one longer cs).chars := by
  cases cs with
  | nil => exact hone
  | cons d rest =>
    rw [oneOrTwo]
    split
    · rename_i two hlookup
      obtain ⟨front, back, hlonger, -⟩ := List.lookup_eq_some_iff.mp hlookup
      have htext := htwo (d, two) (by simp [hlonger])
      simp [Kind.StandsOn, htext]
    · exact hone

/-- Every token is written as its kind says. -/
theorem first_standsOn (c : Char) (cs : List Char) : (first c cs).kind.StandsOn (first c cs).chars := by
  have hnumber : (number (c :: cs)).kind.StandsOn (number (c :: cs)).chars :=
    String.toList_ofList.symm
  have hshape := first_shape c
  generalize first c = read at hshape ⊢
  cases hshape with
  | single _ hk => exact hk
  | oneOrTwo one longer hone htwo _ _ => exact oneOrTwo_standsOn hone htwo cs
  | point hc =>
    simp only
    split
    · exact hnumber
    · rw [hc]
      rfl
  | string hc => exact string_standsOn cs
  | quotedName hc => exact quotedName_standsOn cs
  | digit hc => exact hnumber
  | word _ => exact wordKind_standsOn _

end Lexeme

namespace Token

/-- The characters make up a single token of the given kind. -/
def IsLexeme (cs : List Char) (k : Kind) : Prop :=
  ∃ c ds, cs = c :: ds ∧ Layout.after? .blank c ds = none ∧ Lexeme.first c ds = ⟨k, c :: ds, []⟩

/-- The characters of a token make up a token. -/
theorem isLexeme_first {c : Char} {cs : List Char} (h : Layout.after? .blank c cs = none) :
    IsLexeme (Lexeme.first c cs).chars (Lexeme.first c cs).kind := by
  obtain ⟨ds, hds, halone⟩ := Lexeme.first_alone c cs
  refine ⟨c, ds, hds, ?_, halone⟩
  by_cases hminus : c = '-'
  · subst hminus
    obtain rfl : ds = [] := (List.cons.inj hds).2.symm
    rfl
  · by_cases hslash : c = '/'
    · subst hslash
      obtain rfl : ds = [] := (List.cons.inj hds).2.symm
      rfl
    · simpa [Layout.after?, hminus, hslash] using h

end Token

end SqlFront
