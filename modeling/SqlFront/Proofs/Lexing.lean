import SqlFront.Proofs.Formed
import SqlFront.Render.Expr

/-! # The tokens of a text put together from pieces

`Lexes` says which kinds of tokens a row of characters holds, without the bound on their number and
the spans. `Spells` says that a piece of text gives certain tokens wherever what follows it is as
described, so that the tokens of a text are those of its pieces in order.
-/

namespace SqlFront

namespace Text

/-- Cutting takes the quote off and loses nothing. -/
theorem cutQuoted?_append {quote : Char} {cs inside rest : List Char}
    (h : cutQuoted? quote cs = some (inside, rest)) : inside ++ quote :: rest = cs := by
  fun_induction cutQuoted? quote cs generalizing inside with
  | case1 => cases h
  | case2 =>
    cases h
    rfl
  | case3 => cases h
  | case4 tail ih =>
    obtain ⟨⟨inside, after⟩, hcut, heq⟩ := Option.map_eq_some_iff.mp h
    cases heq
    rw [List.cons_append, List.cons_append, ih hcut]
  | case5 =>
    cases h
    rfl
  | case6 c d tail hc ih =>
    obtain ⟨⟨inside, after⟩, hcut, heq⟩ := Option.map_eq_some_iff.mp h
    cases heq
    rw [List.cons_append, ih hcut]

end Text

namespace Lexeme

theorem fraction_append (cs : List Char) : (fraction cs).1 ++ (fraction cs).2 = cs := by
  unfold fraction
  split
  · split
    · rw [List.cons_append, List.takeWhile_append_dropWhile]
    · rfl
  · rfl

theorem sign_append (cs : List Char) : (sign cs).1 ++ (sign cs).2 = cs := by
  unfold sign
  split <;> rfl

theorem exponent_append (cs : List Char) : (exponent cs).1 ++ (exponent cs).2 = cs := by
  cases cs with
  | nil => rfl
  | cons e rest =>
    have hsign := sign_append rest
    rw [exponent]
    dsimp only
    split
    · rw [List.cons_append, List.append_assoc, List.takeWhile_append_dropWhile, hsign]
    · rfl

theorem number_append (cs : List Char) : (number cs).chars ++ (number cs).rest = cs := by
  have hfraction := fraction_append (cs.dropWhile Char.isDigit)
  have hexponent := exponent_append (fraction (cs.dropWhile Char.isDigit)).2
  unfold number
  dsimp only
  rw [List.append_assoc, hexponent, List.append_assoc, hfraction, List.takeWhile_append_dropWhile]

theorem word_append (c : Char) (cs : List Char) : (word c cs).chars ++ (word c cs).rest = c :: cs := by
  rw [word, List.cons_append, List.takeWhile_append_dropWhile]

theorem string_append (cs : List Char) : (string cs).chars ++ (string cs).rest = '\x27' :: cs := by
  unfold string
  split
  · rename_i h
    simpa using Text.cutQuoted?_append h
  · simp

theorem quotedName_append (cs : List Char) :
    (quotedName cs).chars ++ (quotedName cs).rest = '\x22' :: cs := by
  unfold quotedName
  split
  · rename_i h
    simpa using Text.cutQuoted?_append h
  · simp

theorem oneOrTwo_append (c : Char) (one : Token.Kind) (longer : List (Char × Symbol))
    (cs : List Char) :
    (oneOrTwo c one longer cs).chars ++ (oneOrTwo c one longer cs).rest = c :: cs := by
  unfold oneOrTwo
  split
  · rfl
  · split <;> rfl

/-- The characters of a token and those behind it are the input. -/
theorem first_append (c : Char) (cs : List Char) :
    (first c cs).chars ++ (first c cs).rest = c :: cs := by
  unfold first
  split <;> try rfl
  iterate 5 exact oneOrTwo_append _ _ _ _
  · split
    · exact number_append _
    · rfl
  · exact string_append cs
  · exact quotedName_append cs
  · split
    · exact number_append _
    · split
      · exact word_append _ _
      · rfl

theorem number_chars_ne_nil {cs : List Char}
    (h : cs.takeWhile Char.isDigit ++ (fraction (cs.dropWhile Char.isDigit)).1 ≠ []) :
    (number cs).chars ≠ [] := by
  unfold number
  dsimp only
  simp_all

theorem string_chars_ne_nil (cs : List Char) : (string cs).chars ≠ [] := by
  unfold string
  split <;> exact List.cons_ne_nil _ _

theorem quotedName_chars_ne_nil (cs : List Char) : (quotedName cs).chars ≠ [] := by
  unfold quotedName
  split <;> exact List.cons_ne_nil _ _

theorem oneOrTwo_chars_ne_nil (c : Char) (one : Token.Kind) (longer : List (Char × Symbol))
    (cs : List Char) : (oneOrTwo c one longer cs).chars ≠ [] := by
  unfold oneOrTwo
  split
  · exact List.cons_ne_nil _ _
  · split <;> exact List.cons_ne_nil _ _

/-- Every token has a character. -/
theorem first_chars_ne_nil (c : Char) (cs : List Char) : (first c cs).chars ≠ [] := by
  unfold first
  split <;> try exact List.cons_ne_nil _ _
  iterate 5 exact oneOrTwo_chars_ne_nil _ _ _ _
  · split
    · exact number_chars_ne_nil (starts_number (.inr ⟨rfl, ‹_›⟩))
    · exact List.cons_ne_nil _ _
  · exact string_chars_ne_nil cs
  · exact quotedName_chars_ne_nil cs
  · split
    · exact number_chars_ne_nil (starts_number (.inl ‹_›))
    · split <;> exact List.cons_ne_nil _ _

theorem wordKind_ne_eof (text : String) : wordKind text ≠ .eof := by
  unfold wordKind
  split <;> exact Token.Kind.noConfusion

theorem string_ne_eof (cs : List Char) : (string cs).kind ≠ .eof := by
  unfold string
  split <;> exact Token.Kind.noConfusion

theorem quotedName_ne_eof (cs : List Char) : (quotedName cs).kind ≠ .eof := by
  unfold quotedName
  split <;> exact Token.Kind.noConfusion

theorem oneOrTwo_ne_eof {c : Char} {one : Token.Kind} (hone : one ≠ .eof)
    (longer : List (Char × Symbol)) (cs : List Char) : (oneOrTwo c one longer cs).kind ≠ .eof := by
  unfold oneOrTwo
  split
  · exact hone
  · split
    · exact Token.Kind.noConfusion
    · exact hone

/-- A token that is read is not the end. -/
theorem first_ne_eof (c : Char) (cs : List Char) : (first c cs).kind ≠ .eof := by
  unfold first
  split <;> try exact Token.Kind.noConfusion
  iterate 5 exact oneOrTwo_ne_eof (by simp) _ _
  · split <;> exact Token.Kind.noConfusion
  · exact string_ne_eof cs
  · exact quotedName_ne_eof cs
  · split
    · exact Token.Kind.noConfusion
    · split
      · exact wordKind_ne_eof _
      · exact Token.Kind.noConfusion

end Lexeme

/-- Skipping takes no more than there is. -/
theorem Layout.skip_length (layout : Layout) (cs : List Char) :
    (layout.skip cs).2.length ≤ cs.length := by
  induction cs generalizing layout with
  | nil => exact Nat.le_refl _
  | cons c cs ih =>
    rw [Layout.skip]
    split
    · exact Nat.le_refl _
    · exact Nat.le_succ_of_le (ih _)

namespace Token

/-- The kinds of the tokens that a row of characters holds. -/
inductive Lexes : List Char → List Kind → Prop
  | done {cs} : (Layout.skip .blank cs).2 = [] → Lexes cs []
  | token {cs c ds ks} : (Layout.skip .blank cs).2 = c :: ds → Lexes (Lexeme.first c ds).rest ks →
      Lexes cs ((Lexeme.first c ds).kind :: ks)

/-- A row of characters holds only one row of tokens. -/
theorem Lexes.unique {cs : List Char} {ks ks' : List Kind} (h : Lexes cs ks) (h' : Lexes cs ks') :
    ks = ks' := by
  induction h generalizing ks' with
  | done hskip =>
    cases h' with
    | done => rfl
    | token hskip' => simp [hskip] at hskip'
  | token hskip _ ih =>
    cases h' with
    | done hskip' => simp [hskip] at hskip'
    | token hskip' h' =>
      obtain ⟨rfl, rfl⟩ := List.cons.inj (hskip.symm.trans hskip')
      rw [ih h']

/-- The first token that a row of characters holds, and the tokens behind it. -/
theorem Lexes.of_skip {cs : List Char} {k : Kind} {ks : List Kind} (h : Lexes cs (k :: ks))
    {c : Char} {ds : List Char} (hskip : (Layout.skip .blank cs).2 = c :: ds) :
    (Lexeme.first c ds).kind = k ∧ Lexes (Lexeme.first c ds).rest ks := by
  generalize hrow : k :: ks = row at h
  cases h with
  | done => cases hrow
  | token hother hrest =>
    obtain ⟨rfl, rfl⟩ := List.cons.inj (hskip.symm.trans hother)
    obtain ⟨rfl, rfl⟩ := List.cons.inj hrow
    exact ⟨rfl, hrest⟩

/-- There are no more tokens than characters. -/
theorem Lexes.length_le {cs : List Char} {ks : List Kind} (h : Lexes cs ks) :
    ks.length ≤ cs.length := by
  induction h with
  | done => simp
  | @token cs c ds ks hskip _ ih =>
    have hshort := Layout.skip_length .blank cs
    have hfirst := congrArg List.length (Lexeme.first_append c ds)
    have hchars := List.length_pos_iff.mpr (Lexeme.first_chars_ne_nil c ds)
    rw [hskip] at hshort
    simp only [List.length_append, List.length_cons] at *
    omega

/-- The scanner finds the tokens that a row of characters holds. -/
theorem Lexes.tokens {cs : List Char} {ks : List Kind} (h : Lexes cs ks) {limit : Nat}
    (hlimit : ks.length ≤ limit) (offset : Nat) :
    (Scanner.tokens limit ⟨offset, cs⟩).1.map (·.kind) = ks := by
  induction h generalizing limit offset with
  | done hskip =>
    cases limit with
    | zero => rfl
    | succ limit => simp [Scanner.tokens, Scanner.next, hskip]
  | token hskip _ ih =>
    cases limit with
    | zero => simp at hlimit
    | succ limit =>
      simp only [Scanner.tokens, Scanner.next, hskip, Lexeme.first_ne_eof, ↓reduceIte, List.map_cons]
      rw [ih (by simpa using hlimit)]

/-- Behind the tokens that a row of characters holds stands the end. -/
theorem Lexes.finish {cs : List Char} {ks : List Kind} (h : Lexes cs ks) {limit : Nat}
    (hlimit : ks.length ≤ limit) (offset : Nat) :
    (Scanner.tokens limit ⟨offset, cs⟩).2.next.1.kind = .eof := by
  induction h generalizing limit offset with
  | done hskip =>
    cases limit with
    | zero => simp [Scanner.tokens, Scanner.next, hskip]
    | succ limit => simp [Scanner.tokens, Scanner.next, hskip]
  | token hskip _ ih =>
    cases limit with
    | zero => simp at hlimit
    | succ limit =>
      simp only [Scanner.tokens, Scanner.next, hskip, Lexeme.first_ne_eof, ↓reduceIte]
      exact ih (by simpa using hlimit) _

/-- A text has the tokens that it holds, and the end. -/
theorem kinds_tokenize {text : String} {ks : List Kind} (h : Lexes text.toList ks) :
    (tokenize text).map (·.kind) = ks ++ [.eof] := by
  have hlimit : ks.length ≤ text.length := String.length_toList ▸ h.length_le
  simp only [tokenize, scan, Scanner.start, List.map_append, List.map_cons, List.map_nil,
    h.tokens hlimit, h.finish hlimit]

end Token

/-- The tokens ahead at the beginning of a text are those that it holds. -/
theorem Cursor.kinds_ofText {text : String} {ks : List Token.Kind} (h : Token.Lexes text.toList ks) :
    (ofText text).kinds = ks :=
  h.tokens (String.length_toList ▸ h.length_le) 0

namespace Token

/-- What may follow any piece of a text: nothing, or a character that no word, number, text or sign
    goes on with. -/
def Boundary (cs : List Char) : Prop := ∀ c ∈ cs.head?, c ∈ [' ', ',', '(', ')', '=']

/-- Whether a piece begins with a character that no word, number, text or sign goes on with. -/
def startsBoundary (s : String) : Bool :=
  s.toList.head?.any fun c => decide (c ∈ [' ', ',', '(', ')', '='])

theorem boundary_of_starts {s : String} (h : startsBoundary s = true) (rest : List Char) :
    Boundary (s.toList ++ rest) := by
  unfold startsBoundary at h
  intro d hd
  cases hs : s.toList with
  | nil => simp [hs] at h
  | cons c cs =>
    rw [hs, List.cons_append] at hd
    obtain rfl := Option.some.inj hd
    simpa [hs] using h

/-- What may follow a name: a dot too. -/
def NameEnd (cs : List Char) : Prop :=
  ∀ c ∈ cs.head?, Lexeme.continuesName c = false ∧ c ≠ '\x22'

/-- Wherever what follows the piece is as described, the piece gives the given tokens. -/
def SpellsBefore (after : List Char → Prop) (s : String) (ks : List Kind) : Prop :=
  ∀ rest ks', after rest → Lexes rest ks' → Lexes (s.toList ++ rest) (ks ++ ks')

/-- The piece gives the given tokens before every boundary. -/
abbrev Spells (s : String) (ks : List Kind) : Prop := SpellsBefore Boundary s ks

/-- The piece gives the given tokens whatever follows it. -/
abbrev SpellsAlways (s : String) (ks : List Kind) : Prop := SpellsBefore (fun _ => True) s ks

variable {A B : List Char → Prop} {s s' : String} {ks ks' : List Kind}

theorem SpellsBefore.weaken (h : SpellsBefore A s ks) (hAB : ∀ cs, B cs → A cs) :
    SpellsBefore B s ks :=
  fun rest ks' hrest => h rest ks' (hAB rest hrest)

theorem SpellsBefore.append (h : SpellsBefore A s ks) (h' : SpellsBefore B s' ks')
    (hA : ∀ rest, B rest → A (s'.toList ++ rest)) : SpellsBefore B (s ++ s') (ks ++ ks') := by
  intro rest ks'' hrest hlex
  rw [String.toList_append, List.append_assoc, List.append_assoc]
  exact h _ _ (hA rest hrest) (h' _ _ hrest hlex)

/-- Pieces that nothing runs into. -/
theorem SpellsAlways.append (h : SpellsAlways s ks) (h' : SpellsBefore B s' ks') :
    SpellsBefore B (s ++ s') (ks ++ ks') :=
  SpellsBefore.append h h' fun _ _ => trivial

theorem spells_nil : SpellsBefore A "" [] := fun _ _ _ h => h

/-- The piece keeps apart what stands before it and what stands behind it. -/
def Separate (s : String) : Prop := ∀ rest, Boundary rest → Boundary (s.toList ++ rest)

theorem separate_nil : Separate "" := fun _ h => h

theorem separate_append (s' : String) (h : startsBoundary s = true) :
    Separate (s ++ s') := by
  intro rest _
  rw [String.toList_append, List.append_assoc]
  exact boundary_of_starts h _

/-- A piece before one that keeps apart. -/
theorem Spells.append (h : Spells s ks) (h' : Spells s' ks') (hs' : Separate s') :
    Spells (s ++ s') (ks ++ ks') :=
  SpellsBefore.append h h' hs'

/-- A piece before one that begins with a character that no token goes on with. -/
theorem Spells.append_starts (h : Spells s ks) (h' : SpellsBefore B s' ks')
    (hs' : startsBoundary s' = true) : SpellsBefore B (s ++ s') (ks ++ ks') :=
  SpellsBefore.append h h' fun rest _ => boundary_of_starts hs' rest

theorem boundary_nil : Boundary [] := nofun

/-- The tokens of a whole text. -/
theorem Spells.lexes (h : Spells s ks) : Lexes s.toList ks := by
  simpa using h [] [] boundary_nil (.done rfl)

/-! ## The pieces of canonical texts -/

theorem spells_space : SpellsAlways " " [] := by
  intro rest ks' _ h
  have hskip : (Layout.skip .blank (' ' :: rest)).2 = (Layout.skip .blank rest).2 := rfl
  cases h with
  | done h => exact .done (hskip.trans h)
  | token h h' => exact .token (hskip.trans h) h'

/-- A token at the front of the text. -/
theorem lexes_first {c : Char} {cs rest : List Char} {k : Kind}
    (hskip : Layout.after? .blank c cs = none) (hkind : (Lexeme.first c cs).kind = k)
    (hrest : (Lexeme.first c cs).rest = rest) (h : Lexes rest ks) : Lexes (c :: cs) (k :: ks) := by
  subst hkind hrest
  have hfront : (Layout.skip .blank (c :: cs)).2 = c :: cs := by rw [Layout.skip, hskip]
  exact .token hfront h

theorem spells_leftParen : SpellsAlways "(" [.symbol .leftParen] :=
  fun _ _ _ h => lexes_first rfl rfl rfl h

theorem spells_rightParen : SpellsAlways ")" [.symbol .rightParen] :=
  fun _ _ _ h => lexes_first rfl rfl rfl h

theorem spells_comma : SpellsAlways "," [.symbol .comma] :=
  fun _ _ _ h => lexes_first rfl rfl rfl h

theorem spells_equal : SpellsAlways "=" [.symbol .equal] :=
  fun _ _ _ h => lexes_first rfl rfl rfl h

theorem spells_question : SpellsAlways "?" [.symbol .question] :=
  fun _ _ _ h => lexes_first rfl rfl rfl h

/-- What a boundary can be. -/
theorem Boundary.cases {rest : List Char} (h : Boundary rest) :
    rest = [] ∨ ∃ cs, rest = ' ' :: cs ∨ rest = ',' :: cs ∨ rest = '(' :: cs ∨ rest = ')' :: cs ∨
      rest = '=' :: cs := by
  cases rest with
  | nil => exact .inl rfl
  | cons c cs => exact .inr ⟨cs, by simpa using h c rfl⟩

/-- What holds of the five boundary characters holds of whatever a boundary starts with. -/
theorem Boundary.head {rest : List Char} (h : Boundary rest) {p : Char → Bool}
    (hp : [' ', ',', '(', ')', '='].all p = true) : ∀ c ∈ rest.head?, p c = true :=
  fun c hc => List.all_eq_true.mp hp c (h c hc)

/-- A sign ends before a space. -/
theorem spells_sign (sign : Symbol) : SpellsAlways (sign.text ++ " ") [.symbol sign] := by
  intro rest ks' _ h
  have h := spells_space rest ks' trivial h
  rw [String.toList_append, List.append_assoc]
  cases sign <;> exact lexes_first rfl rfl rfl h

/-- A star ends before every boundary. -/
theorem spells_star : Spells "*" [.symbol .star] := by
  intro rest ks' hrest h
  obtain rfl | ⟨cs, rfl | rfl | rfl | rfl | rfl⟩ := hrest.cases <;> exact lexes_first rfl rfl rfl h

theorem Boundary.nameEnd {rest : List Char} (h : Boundary rest) : NameEnd rest := by
  intro c hc
  have hfollows := h.head (p := fun c => !Lexeme.continuesName c && c != '\x22') (by decide) c hc
  simpa using hfollows

theorem takeWhile_of_head {p : Char → Bool} {cs : List Char} (h : ∀ c ∈ cs.head?, p c = false) :
    cs.takeWhile p = [] := by
  cases cs with
  | nil => rfl
  | cons c cs => simp [h c rfl]

theorem dropWhile_of_head {p : Char → Bool} {cs : List Char} (h : ∀ c ∈ cs.head?, p c = false) :
    cs.dropWhile p = cs := by
  cases cs with
  | nil => rfl
  | cons c cs => simp [h c rfl]

/-- A word ends where no character of a name follows. -/
theorem spells_word (h : Text.isWordText s = true) :
    SpellsBefore NameEnd s [Lexeme.wordKind s] := by
  intro rest ks' hrest hlex
  obtain ⟨c, cs, hs, hc, hcs⟩ := Text.isWordText_iff.mp h
  have htake : (cs ++ rest).takeWhile Lexeme.continuesName = cs := by
    rw [List.takeWhile_append_of_pos hcs, takeWhile_of_head fun c hc => (hrest c hc).1,
      List.append_nil]
  have hdrop : (cs ++ rest).dropWhile Lexeme.continuesName = rest := by
    rw [List.dropWhile_append_of_pos hcs, dropWhile_of_head fun c hc => (hrest c hc).1]
  rw [hs, List.cons_append]
  refine lexes_first (Lexeme.after?_of_startsName hc) ?_ ?_ hlex
  · rw [Lexeme.first_of_startsName hc, Lexeme.word, htake, ← hs, String.ofList_toList]
  · rw [Lexeme.first_of_startsName hc, Lexeme.word, hdrop]

/-- A name ends where no character of a name and no quote follows. -/
theorem spells_name (h : IsName s) : SpellsBefore NameEnd s [.name s] := by
  cases h with
  | word hword hfree =>
    have hkind : Lexeme.wordKind s = .name s := by rw [Lexeme.wordKind, hfree]
    exact hkind ▸ spells_word hword
  | quoted cs =>
    intro rest ks' hrest hlex
    have hcut : Text.cutQuoted? '\x22' (Text.doubled '\x22' cs ++ '\x22' :: rest) =
        some (Text.doubled '\x22' cs, rest) := by
      refine Text.cutQuoted?_doubled _ _ _ fun hquote => ?_
      exact (hrest _ hquote).2 rfl
    rw [String.toList_ofList, List.cons_append, List.append_assoc, List.singleton_append]
    refine lexes_first rfl ?_ ?_ hlex
    · rw [Lexeme.first, Lexeme.quotedName, hcut]
    · rw [Lexeme.first, Lexeme.quotedName, hcut]

/-- A text between quotes ends where no other quote follows. -/
theorem spells_string (value : String) :
    SpellsBefore (fun cs => cs.head? ≠ some '\x27') (Constant.render ⟨.string, value⟩)
      [.string value] := by
  intro rest ks' hrest hlex
  have hcut := Text.cutQuoted?_doubled '\x27' value.toList rest hrest
  have htext : (Constant.render ⟨.string, value⟩).toList ++ rest =
      '\x27' :: (Text.doubled '\x27' value.toList ++ '\x27' :: rest) := by
    simp [Constant.render]
  rw [htext]
  refine lexes_first rfl ?_ ?_ hlex
  · rw [Lexeme.first, Lexeme.string, hcut]
    simp [Text.undoubled_doubled]
  · rw [Lexeme.first, Lexeme.string, hcut]

theorem boundary_no_quote (cs : List Char) (h : Boundary cs) : cs.head? ≠ some '\x27' := by
  intro hhead
  have hmem := h _ hhead
  revert hmem
  decide

/-- The point of a dotted name ends where no digit follows. -/
theorem spells_dot : SpellsBefore (fun cs => ∀ c ∈ cs.head?, c.isDigit = false) "." [.symbol .dot] := by
  intro rest ks' hrest hlex
  have hdigit : ¬ rest.head?.any Char.isDigit = true := by
    cases rest with
    | nil => simp
    | cons c cs => simpa using hrest c rfl
  have hfirst : Lexeme.first '.' rest = ⟨.symbol .dot, ['.'], rest⟩ := by
    rw [Lexeme.first, if_neg hdigit]
  exact lexes_first rfl (congrArg Lexeme.kind hfirst) (congrArg Lexeme.rest hfirst) hlex

/-- A name starts with no digit. -/
theorem IsName.no_digit (h : IsName s) (rest : List Char) :
    ∀ c ∈ (s.toList ++ rest).head?, c.isDigit = false := by
  obtain ⟨c, cs, hs, hc⟩ := h.first
  rw [hs]
  intro d hd
  obtain rfl := Option.some.inj hd
  obtain hc | rfl := hc
  · exact (Lexeme.startsName_separate hc).2
  · decide

theorem nameEnd_dot (rest : List Char) : NameEnd (".".toList ++ rest) := by
  intro c hc
  obtain rfl := Option.some.inj hc
  decide

/-- A dotted name gives its tokens again, without the layout between them. -/
theorem spells_dotted {t : String} (h : Rule.Dotted ks t) (hks : Written ks) :
    SpellsBefore NameEnd t ks := by
  induction h with
  | one => exact spells_name (hks _ (List.mem_singleton.mpr rfl))
  | @more ks t n _ ih =>
    have hfront : Written ks := fun k hk => hks k (List.mem_append_left _ hk)
    have hname : IsName n := hks (.name n) (by simp)
    have hdot := SpellsBefore.append spells_dot (spells_name hname) fun rest _ => hname.no_digit rest
    have hall := SpellsBefore.append (ih hfront) hdot fun rest _ => by
      rw [String.toList_append, List.append_assoc]
      exact nameEnd_dot _
    rwa [← String.append_assoc] at hall

theorem spells_column {t : String} (h : Rule.Column ks t) (hks : Written ks) : Spells t ks := by
  cases h with
  | dotted h => exact (spells_dotted h hks).weaken fun _ => Boundary.nameEnd
  | @all ks t h =>
    have hfront : Written ks := fun k hk => hks k (List.mem_append_left _ hk)
    have hdot : Spells ("." ++ "*") ([.symbol .dot] ++ [.symbol .star]) := by
      refine SpellsBefore.append spells_dot spells_star fun rest _ c hc => ?_
      obtain rfl := Option.some.inj hc
      decide
    exact SpellsBefore.append (spells_dotted h hfront) hdot fun rest _ => nameEnd_dot _

/-! ## Numbers -/

theorem takeWhile_digits {whole rest : List Char} (h : ∀ c ∈ whole, c.isDigit = true)
    (hrest : ∀ c ∈ rest.head?, c.isDigit = false) :
    (whole ++ rest).takeWhile Char.isDigit = whole ∧
      (whole ++ rest).dropWhile Char.isDigit = rest := by
  rw [List.takeWhile_append_of_pos h, List.dropWhile_append_of_pos h, takeWhile_of_head hrest,
    dropWhile_of_head hrest, List.append_nil]
  exact ⟨rfl, rfl⟩

/-- A fraction goes on with the digits behind it. -/
theorem fraction_present {d : Char} {ds : List Char} (h : ∀ c ∈ d :: ds, c.isDigit = true)
    (rest : List Char) : Lexeme.fraction ('.' :: d :: ds ++ rest) =
      ('.' :: d :: ds ++ rest.takeWhile Char.isDigit, rest.dropWhile Char.isDigit) := by
  rw [List.cons_append, List.cons_append, Lexeme.fraction, if_pos (h d (List.mem_cons_self ..)),
    ← List.cons_append, List.takeWhile_append_of_pos h, List.dropWhile_append_of_pos h]
  rfl

theorem fraction_append_of {places rest : List Char} (h : IsFraction places)
    (hrest : ∀ c ∈ rest.head?, c.isDigit = false ∧ c ≠ '.') :
    Lexeme.fraction (places ++ rest) = (places, rest) := by
  cases h with
  | absent =>
    cases rest with
    | nil => rfl
    | cons c cs =>
      have hc := (hrest c rfl).2
      unfold Lexeme.fraction
      split
      · rename_i heq
        exact absurd (List.cons.inj heq).1 hc
      · rfl
  | present hdigits =>
    have hdigit : ∀ c ∈ rest.head?, c.isDigit = false := fun c hc => (hrest c hc).1
    rw [fraction_present hdigits, takeWhile_of_head hdigit, dropWhile_of_head hdigit, List.append_nil]

theorem Boundary.not_digit {rest : List Char} (h : Boundary rest) :
    ∀ c ∈ rest.head?, c.isDigit = false ∧ c ≠ '.' := by
  intro c hc
  have hends := h.head (p := fun c => !c.isDigit && c != '.') (by decide) c hc
  simpa using hends

/-- A sign stands before a digit. -/
theorem sign_before_digit {signs : List Char} {d : Char}
    (h : signs = [] ∨ signs = ['+'] ∨ signs = ['-']) (hd : d.isDigit = true) (cs : List Char) :
    Lexeme.sign (signs ++ d :: cs) = (signs, d :: cs) := by
  obtain rfl | rfl | rfl := h
  · unfold Lexeme.sign
    split
    · rename_i heq
      obtain rfl := (List.cons.inj heq).1
      cases hd
    · rename_i heq
      obtain rfl := (List.cons.inj heq).1
      cases hd
    · rfl
  · rfl
  · rfl

/-- An exponent goes on with the digits behind it. -/
theorem exponent_present {e d : Char} {signs ds : List Char} (he : e = 'e' ∨ e = 'E')
    (hsigns : signs = [] ∨ signs = ['+'] ∨ signs = ['-']) (h : ∀ c ∈ d :: ds, c.isDigit = true)
    (rest : List Char) : Lexeme.exponent (e :: (signs ++ d :: ds) ++ rest) =
      (e :: (signs ++ d :: ds) ++ rest.takeWhile Char.isDigit, rest.dropWhile Char.isDigit) := by
  have hd := h d (List.mem_cons_self ..)
  have htake : (d :: (ds ++ rest)).takeWhile Char.isDigit = d :: ds ++ rest.takeWhile Char.isDigit :=
    List.takeWhile_append_of_pos h
  have hdrop : (d :: (ds ++ rest)).dropWhile Char.isDigit = rest.dropWhile Char.isDigit :=
    List.dropWhile_append_of_pos h
  rw [List.cons_append, List.append_assoc, List.cons_append, Lexeme.exponent,
    sign_before_digit hsigns hd]
  dsimp only
  rw [if_pos ⟨he, by simpa using hd⟩, htake, hdrop]
  simp

theorem exponent_append_of {power rest : List Char} (h : IsExponent power) (hrest : Boundary rest) :
    Lexeme.exponent (power ++ rest) = (power, rest) := by
  have hdigit : ∀ c ∈ rest.head?, c.isDigit = false := fun c hc => (hrest.not_digit c hc).1
  cases h with
  | absent =>
    obtain rfl | ⟨cs, rfl | rfl | rfl | rfl | rfl⟩ := hrest.cases <;> rfl
  | present he hsigns hdigits =>
    rw [exponent_present he hsigns hdigits, takeWhile_of_head hdigit, dropWhile_of_head hdigit,
      List.append_nil]

theorem exponent_letter {e : Char} (h : e = 'e' ∨ e = 'E') : e.isDigit = false ∧ e ≠ '.' := by
  obtain rfl | rfl := h <;> decide

theorem IsExponent.head {power rest : List Char} (h : IsExponent power) (hrest : Boundary rest) :
    ∀ c ∈ (power ++ rest).head?, c.isDigit = false ∧ c ≠ '.' := by
  cases h with
  | absent => exact hrest.not_digit
  | present he =>
    intro c hc
    obtain rfl := Option.some.inj hc
    exact exponent_letter he

theorem IsFraction.head {places rest : List Char} (h : IsFraction places)
    (hrest : ∀ c ∈ rest.head?, c.isDigit = false) :
    ∀ c ∈ (places ++ rest).head?, c.isDigit = false := by
  cases h with
  | absent => exact hrest
  | present =>
    intro c hc
    obtain rfl := Option.some.inj hc
    decide

/-- A number that is put together from its parts is read to its end. -/
theorem number_of_parts {whole places power rest : List Char} (hwhole : ∀ c ∈ whole, c.isDigit = true)
    (hplaces : IsFraction places) (hpower : IsExponent power) (hrest : Boundary rest) :
    Lexeme.number (whole ++ (places ++ (power ++ rest))) =
      ⟨.number (String.ofList (whole ++ places ++ power)), whole ++ places ++ power, rest⟩ := by
  have hpowerHead := hpower.head hrest
  obtain ⟨htake, hdrop⟩ := takeWhile_digits hwhole (hplaces.head fun c hc => (hpowerHead c hc).1)
  rw [Lexeme.number, htake, hdrop, fraction_append_of hplaces hpowerHead]
  dsimp only
  rw [exponent_append_of hpower hrest]

/-- A number starts with a digit, or with a point and a digit. -/
theorem IsNumber.start (h : IsNumber s) (rest : List Char) : ∃ c cs, s.toList ++ rest = c :: cs ∧
    (c.isDigit = true ∨ c = '.' ∧ cs.head?.any Char.isDigit = true) := by
  obtain @⟨whole, places, power, hwhole, hplaces, -, hne⟩ := h
  rw [String.toList_ofList, List.append_assoc, List.append_assoc]
  cases whole with
  | cons d ds => exact ⟨d, _, List.cons_append, .inl (hwhole d (List.mem_cons_self ..))⟩
  | nil =>
    cases hplaces with
    | absent => exact absurd rfl hne
    | @present d ds hdigits =>
      exact ⟨'.', _, rfl, .inr ⟨rfl, by simpa using hdigits d (List.mem_cons_self ..)⟩⟩

/-- A number ends before every boundary. -/
theorem spells_number (h : IsNumber s) : Spells s [.number s] := by
  intro rest ks' hrest hlex
  obtain ⟨c, cs, hcs, hstart⟩ := h.start rest
  have hfirst : Lexeme.first c cs = ⟨.number s, s.toList, rest⟩ := by
    rw [Lexeme.first_of_number hstart, ← hcs]
    obtain ⟨hwhole, hplaces, hpower, -⟩ := h
    rw [String.toList_ofList, List.append_assoc, List.append_assoc]
    exact number_of_parts hwhole hplaces hpower hrest
  rw [hcs]
  exact lexes_first (Lexeme.after?_of_number hstart) (congrArg Lexeme.kind hfirst)
    (congrArg Lexeme.rest hfirst) hlex

/-! ## Words and lists -/

theorem SpellsBefore.space_before (h : SpellsBefore A s ks) : SpellsBefore A (" " ++ s) ks :=
  SpellsAlways.append spells_space h

theorem Spells.space_after (h : Spells s ks) : SpellsAlways (s ++ " ") ks := by
  simpa using h.append_starts spells_space (by decide)

/-- Words with a space between any two. -/
theorem spells_words (ws : List String) (h : ws.all Text.isWordText = true ∧
    Text.join " " ws = s ∧ ws.map Lexeme.wordKind = ks) : Spells s ks := by
  obtain ⟨h, rfl, rfl⟩ := h
  induction ws with
  | nil => exact spells_nil
  | cons w rest ih =>
    rw [List.all_cons, Bool.and_eq_true] at h
    have hword : Spells w [Lexeme.wordKind w] := (spells_word h.1).weaken fun _ => Boundary.nameEnd
    cases rest with
    | nil => exact hword
    | cons next rest => exact SpellsAlways.append hword.space_after (ih h.2)

/-- Words with a space between any two, and before and behind them. -/
theorem spells_between (ws : List String) (h : ws.all Text.isWordText = true ∧
    " " ++ (Text.join " " ws ++ " ") = s ∧ ws.map Lexeme.wordKind = ks) : SpellsAlways s ks := by
  obtain ⟨h, rfl, hks⟩ := h
  exact SpellsBefore.space_before (spells_words ws ⟨h, rfl, hks⟩).space_after

theorem spells_sign_between (sign : Symbol) :
    SpellsAlways (" " ++ sign.text ++ " ") [.symbol sign] := by
  rw [String.append_assoc]
  exact SpellsBefore.space_before (spells_sign sign)

/-- A piece between parentheses. -/
theorem Spells.parens (h : Spells s ks) :
    SpellsAlways ("(" ++ s ++ ")") (.symbol .leftParen :: ks ++ [.symbol .rightParen]) :=
  Spells.append_starts (SpellsAlways.append spells_leftParen h) spells_rightParen (by decide)

end Token

end SqlFront
