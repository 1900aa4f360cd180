import SqlFront.Proofs.Statements
import SqlFront.Proofs.Tiling

/-! # Layout and the case of reserved words carry no meaning

Main statement: a text whose tokens are written down again, with single spaces between them and reserved
words in any case, has the same tokens, and calls to a parser over it are answered as over the text
itself, but for the places of errors.
-/

namespace SqlFront

/-! ## Tokens with single spaces between them -/

namespace Lexeme

/-- A token without its closing quote takes in everything that follows. -/
theorem first_unclosed {c : Char} {cs : List Char} (h : (first c cs).kind.Unclosed) :
    (first c cs).rest = [] := by
  have hstands := first_standsOn c cs
  obtain ⟨ds, hds, -⟩ := first_alone c cs
  rw [hds] at hstands
  obtain hkind | hkind := h
  · rw [hkind] at hstands
    obtain ⟨_, hquote, -⟩ := hstands
    obtain ⟨rfl, -⟩ := List.cons.inj hquote
    change (string cs).kind = _ at hkind
    change (string cs).rest = []
    unfold string at hkind ⊢
    split at hkind
    · cases hkind
    · rfl
  · rw [hkind] at hstands
    obtain ⟨_, hquote, -⟩ := hstands
    obtain ⟨rfl, -⟩ := List.cons.inj hquote
    change (quotedName cs).kind = _ at hkind
    change (quotedName cs).rest = []
    unfold quotedName at hkind ⊢
    split at hkind
    · cases hkind
    · rfl

end Lexeme

namespace Scanner

/-- Nothing stands behind a token without its closing quote. -/
theorem next_unclosed {s : Scanner} (h : s.next.1.kind.Unclosed) : s.next.2.rest = [] := by
  cases hskip : (Layout.skip .blank s.rest).2 with
  | nil => rw [next_eof hskip]
  | cons c cs =>
    obtain ⟨start, -, hnext⟩ := next_token hskip
    rw [hnext] at h ⊢
    exact Lexeme.first_unclosed h

/-- Only the last token may lack its closing quote. -/
theorem Cuts.closed {s last : Scanner} {ts : List Token} (h : Cuts s ts last) :
    ∀ t ∈ ts.dropLast, ¬ t.kind.Unclosed := by
  induction h with
  | finish => exact nofun
  | @token s ts last hne hrest ih =>
    cases hrest with
    | finish => exact nofun
    | token hne' hrest =>
      rw [List.dropLast_cons_cons]
      intro t ht
      obtain rfl | ht := List.mem_cons.mp ht
      · intro hopen
        exact hne' (next_eof_iff.mpr (by rw [next_unclosed hopen]; rfl))
      · exact ih t ht

end Scanner

theorem Text.isAlpha_of_toUpper {c : Char} (h : c.toUpper.isAlpha = true) : c.isAlpha = true := by
  obtain ⟨_, hsame⟩ | ⟨hlow, hhigh, _⟩ := toUpper_cases c
  · rwa [hsame] at h
  · exact isAlpha_iff.mpr (.inr ⟨hlow, hhigh⟩)

theorem Keyword.isAlpha_text (word : Keyword) : ∀ c ∈ word.text.toList, c.isAlpha = true := by
  refine List.all_eq_true.mp ?_
  cases word <;> decide

namespace Token

/-- Tokens with single spaces between them are these tokens again. -/
theorem lexes_join {pieces : List String} {ks : List Kind}
    (h : List.Forall₂ (fun piece k => IsLexeme piece.toList k) pieces ks)
    (hclosed : ∀ k ∈ ks.dropLast, ¬ k.Unclosed) : Lexes (Text.join " " pieces).toList ks := by
  induction h with
  | nil => exact .done rfl
  | @cons piece k pieces ks hpiece hrest ih =>
    obtain ⟨c, ds, hchars, hlayout, hfirst⟩ := hpiece
    cases hrest with
    | nil =>
      rw [Text.join, hchars]
      exact lexes_first hlayout (by rw [hfirst]) (by rw [hfirst]) (.done rfl)
    | @cons next k' pieces ks hnext hrest =>
      rw [List.dropLast_cons_cons] at hclosed
      have hopen : ¬ k.Unclosed := hclosed k (List.mem_cons_self ..)
      have hbreak := break_space (Text.join " " (next :: pieces)).toList
      have hlexes : Lexes (' ' :: (Text.join " " (next :: pieces)).toList) (k' :: ks) :=
        spells_space _ _ trivial (ih fun k hk => hclosed k (List.mem_cons_of_mem _ hk))
      have hbefore := Lexeme.first_before hbreak (by rwa [hfirst] : ¬ (Lexeme.first c ds).kind.Unclosed)
      have hjoin : (Text.join " " (piece :: next :: pieces)).toList =
          c :: (ds ++ ' ' :: (Text.join " " (next :: pieces)).toList) := by
        simp [Text.join, hchars]
      rw [hjoin]
      rw [hfirst] at hbefore
      exact lexes_first (Lexeme.after?_before hbreak hlayout) (by rw [hbefore]; rfl)
        (by rw [hbefore]; rfl) hlexes

theorem isLexeme_word {s : String} (h : Text.isWordText s = true) :
    IsLexeme s.toList (Lexeme.wordKind s) := by
  obtain ⟨c, cs, hs, hc, hcs⟩ := Text.isWordText_iff.mp h
  refine ⟨c, cs, hs, Lexeme.after?_of_startsName hc, ?_⟩
  have htake : cs.takeWhile Lexeme.continuesName = cs := List.takeWhile_eq_self_iff.mpr hcs
  have hdrop : cs.dropWhile Lexeme.continuesName = [] := List.dropWhile_eq_nil_iff.mpr hcs
  rw [Lexeme.first_of_startsName hc, Lexeme.word, htake, hdrop, ← hs, String.ofList_toList]

/-- A reserved word may be written in any case. -/
theorem isLexeme_keyword {s : String} {word : Keyword} (h : Text.upper s = word.text) :
    IsLexeme s.toList (.keyword word) := by
  have hkind : Lexeme.wordKind s = .keyword word := by
    have hword : Keyword.ofText? s = some word := by
      rw [Keyword.ofText?, h]
      cases word <;> rfl
    rw [Lexeme.wordKind, hword]
  have hupper : s.toList.map Char.toUpper = word.text.toList := by
    rw [← h, Text.upper, String.toList_ofList]
  have hletter : ∀ c ∈ s.toList, Text.isLetter c = true := by
    intro c hc
    have hcapital : c.toUpper ∈ word.text.toList := hupper ▸ List.mem_map_of_mem hc
    exact Text.isLetter_of_isAlpha (Text.isAlpha_of_toUpper (word.isAlpha_text _ hcapital))
  have hword : Text.isWordText s = true := by
    cases hs : s.toList with
    | nil =>
      rw [hs] at hupper
      cases word <;> cases hupper
    | cons c cs =>
      rw [hs] at hletter
      refine Text.isWordText_iff.mpr ⟨c, cs, hs, ?_, fun d hd => ?_⟩
      · simp [Lexeme.startsName, hletter c (List.mem_cons_self ..)]
      · simp [Lexeme.continuesName, hletter d (List.mem_cons_of_mem _ hd)]
  exact hkind ▸ isLexeme_word hword

/-- What may be written for a token of a text: its slice of the text, or if it is a reserved word, this
    word in any case. -/
def Respelled (text : String) (t : Token) (piece : String) : Prop :=
  t.span.slice? text = some piece ∨ ∃ word, t.kind = .keyword word ∧ Text.upper piece = word.text

theorem Respelled.isLexeme {text piece : String} {t : Token} (h : Respelled text t piece)
    (hslice : ∃ s, t.span.slice? text = some s ∧ IsLexeme s.toList t.kind) :
    IsLexeme piece.toList t.kind := by
  obtain hpiece | ⟨word, hword, hpiece⟩ := h
  · obtain ⟨s, hs, hlexeme⟩ := hslice
    obtain rfl := Option.some.inj (hpiece.symm.trans hs)
    exact hlexeme
  · rw [hword]
    exact isLexeme_keyword hpiece

end Token

/-! ## Answers -/

/-- The error without its place. -/
def ReadError.unplaced : ReadError → ReadError
  | .malformed fault _ => .malformed fault ⟨0, 0⟩
  | e => e

namespace Grammar

/-- Places with the same kinds of tokens ahead. -/
def sameKinds : Lockstep where
  rel c c' := c.kinds = c'.kinds
  escaped _ := False
  place _ _ := True
  fault f f' := f = f'
  escaped_reaches h _ := h
  current h := .inl (by rw [Cursor.current_kind, Cursor.current_kind, h])
  span _ := trivial
  merge _ _ := trivial
  fault_refl _ := rfl
  unexpected h _ := by rw [Cursor.current_kind, Cursor.current_kind, h]
  advance h _ := .inr (by rw [Cursor.kinds_advance, Cursor.kinds_advance, h])

theorem sameKinds_even : sameKinds.Even where
  stays _ h := h
  current h := by rw [Cursor.current_kind, Cursor.current_kind, h]
  advance h := by
    change Cursor.kinds _ = Cursor.kinds _
    rw [Cursor.kinds_advance, Cursor.kinds_advance, h]
  toEnd _ := rfl

theorem unplaced_of_same {α : Type} {x x' : Except ReadError α} (h : sameKinds.Same x x') :
    x.mapError ReadError.unplaced = x'.mapError ReadError.unplaced := by
  obtain e | a := x <;> obtain e' | a' := x'
  · cases h with
    | malformed hfault _ =>
      rw [show _ = _ from hfault]
      rfl
    | noInput | unreadable => rfl
  · exact h.elim
  · exact h.elim
  · rw [show a = a' from h]

/-- Calls are answered from the kinds of the tokens ahead alone, but for the places of errors. -/
theorem answers_of_kinds (r : Registry) (calls : List Call) {c c' : Cursor} (h : c.kinds = c'.kinds) :
    (answers r calls c).map (·.mapError ReadError.unplaced) =
      (answers r calls c').map (·.mapError ReadError.unplaced) := by
  have htrack := answers_track (r := r) sameKinds_even calls h
  rw [← List.forall₂_eq_eq_eq, List.forall₂_map_left_iff, List.forall₂_map_right_iff]
  exact htrack.imp fun _ _ hsame => unplaced_of_same hsame

end Grammar

/-- Between the tokens of a text nothing counts, nor does the case of its reserved words. Written with
    single spaces, the tokens are the same again, those that are errors too, and any calls to a parser
    are answered with the same trees, ends and errors. -/
theorem respaced (r : Registry) (text : String) :
    (∃ slices, List.Forall₂ (fun t s => t.span.slice? text = some s) (Token.scan text).1 slices) ∧
      ∀ pieces, List.Forall₂ (Token.Respelled text) (Token.scan text).1 pieces →
        (Token.tokenize (Text.join " " pieces)).map (·.kind) = (Token.tokenize text).map (·.kind) ∧
        ∀ calls, (Grammar.answers r calls (Cursor.ofText (Text.join " " pieces))).map
            (·.mapError ReadError.unplaced) =
          (Grammar.answers r calls (Cursor.ofText text)).map (·.mapError ReadError.unplaced) := by
  have hcuts := Scanner.cuts_tokens (s := Scanner.start text) (Nat.le_of_eq String.length_toList)
  obtain ⟨htiles, -⟩ := Token.tiles_of_cuts hcuts (Scanner.in_start text)
  have hslices : ∀ t ∈ (Token.scan text).1, ∃ s, t.span.slice? text = some s ∧
      Token.IsLexeme s.toList t.kind := by
    intro t ht
    obtain ⟨-, -, -, s, hs, -, hlexeme⟩ := htiles.token t ht
    exact ⟨s, hs, hlexeme⟩
  refine ⟨?_, fun pieces hpieces => ?_⟩
  · refine ⟨(Token.scan text).1.map fun t => (t.span.slice? text).getD "", ?_⟩
    rw [List.forall₂_map_right_iff, List.forall₂_same]
    intro t ht
    obtain ⟨s, hs, -⟩ := hslices t ht
    rw [hs]
    rfl
  · have hlexemes : List.Forall₂ (fun piece k => Token.IsLexeme piece.toList k) pieces
        ((Token.scan text).1.map (·.kind)) := by
      rw [List.forall₂_map_right_iff]
      refine ((List.forall₂_and_left _ _).mpr ⟨hslices, hpieces⟩).flip.imp fun piece t h => ?_
      exact h.2.isLexeme h.1
    have hclosed : ∀ k ∈ ((Token.scan text).1.map (·.kind)).dropLast, ¬ k.Unclosed := by
      intro k hk
      rw [← List.map_dropLast] at hk
      obtain ⟨t, ht, rfl⟩ := List.mem_map.mp hk
      exact hcuts.closed t ht
    have hjoin := Token.lexes_join hlexemes hclosed
    refine ⟨?_, fun calls => Grammar.answers_of_kinds r calls ?_⟩
    · rw [Token.kinds_tokenize hjoin, Token.kinds_tokenize hcuts.lexes]
      rfl
    · rw [Cursor.kinds_ofText hjoin, Cursor.kinds_ofText hcuts.lexes]
      rfl

theorem respaced_select :
    List.Forall₂ (Token.Respelled "select/**/a --\nfrom t") (Token.scan "select/**/a --\nfrom t").1
        ["SELECT", "a", "From", "t"] ∧
      (Token.tokenize "SELECT a From t").map (·.kind) =
        (Token.tokenize "select/**/a --\nfrom t").map (·.kind) := by
  have hpieces : List.Forall₂ (Token.Respelled "select/**/a --\nfrom t")
      (Token.scan "select/**/a --\nfrom t").1 ["SELECT", "a", "From", "t"] := by
    have hscan : (Token.scan "select/**/a --\nfrom t").1 =
        [⟨.keyword .select, ⟨0, 6⟩⟩, ⟨.name "a", ⟨10, 11⟩⟩, ⟨.keyword .from, ⟨15, 19⟩⟩,
          ⟨.name "t", ⟨20, 21⟩⟩] := by decide +kernel
    rw [hscan]
    refine .cons (.inr ⟨.select, rfl, by decide⟩) (.cons (.inl ?_) (.cons
      (.inr ⟨.from, rfl, by decide⟩) (.cons (.inl ?_) .nil)))
    · decide +kernel
    · decide +kernel
  exact ⟨hpieces, ((respaced Registry.builtin _).2 _ hpieces).1⟩

end SqlFront
