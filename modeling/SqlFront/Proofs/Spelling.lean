import SqlFront.Function.Registry
import SqlFront.Operator
import SqlFront.Token.Scanner

/-! # How tokens are spelled

The texts that tokens carry keep the shape that the scanner asks for: a name is a word that is not
reserved or anything between double quotes, a number has digits, a fraction and an exponent in that
order. Main statement: this holds of every token of every text.
-/

namespace SqlFront

namespace Text

theorem isSpace_toUpper (c : Char) : isSpace c.toUpper = isSpace c := by
  rcases toUpper_cases c with ⟨_, h⟩ | ⟨_, _, h⟩
  · rw [h]
  · simp only [isSpace, h]
    grind

theorem trimChars_map_toUpper (cs : List Char) :
    trimChars (cs.map Char.toUpper) = (trimChars cs).map Char.toUpper := by
  have hspace : isSpace ∘ Char.toUpper = isSpace := funext isSpace_toUpper
  simp [trimChars, List.dropWhile_map, ← List.map_reverse, hspace]

theorem isLetter_toUpper {c : Char} (h : isLetter c = true) : isLetter c.toUpper = true := by
  rcases toUpper_cases c with ⟨_, h'⟩ | ⟨h₁, h₂, h₃⟩
  · rwa [h']
  · refine isLetter_of_isAlpha (isAlpha_iff.mpr ?_)
    omega

/-- What stands before the closing quote is some text with its quotes doubled. -/
theorem cutQuoted?_some {quote : Char} {cs inside rest : List Char}
    (h : cutQuoted? quote cs = some (inside, rest)) : ∃ value, inside = doubled quote value := by
  fun_induction cutQuoted? quote cs generalizing inside with
  | case1 => cases h
  | case2 =>
    cases h
    exact ⟨[], rfl⟩
  | case3 => cases h
  | case4 tail ih =>
    obtain ⟨⟨inside, after⟩, hcut, heq⟩ := Option.map_eq_some_iff.mp h
    cases heq
    obtain ⟨value, rfl⟩ := ih hcut
    exact ⟨quote :: value, by simp [doubled]⟩
  | case5 =>
    cases h
    exact ⟨[], rfl⟩
  | case6 c d tail hc ih =>
    obtain ⟨⟨inside, after⟩, hcut, heq⟩ := Option.map_eq_some_iff.mp h
    cases heq
    obtain ⟨value, rfl⟩ := ih hcut
    exact ⟨c :: value, by simp [doubled, hc]⟩

/-- Capitals of a text with doubled quotes. -/
theorem map_toUpper_doubled {quote : Char} (hquote : quote.toNat < 65) (cs : List Char) :
    (doubled quote cs).map Char.toUpper = doubled quote (cs.map Char.toUpper) := by
  have hself : quote.toUpper = quote := (toUpper_eq_iff hquote).mpr rfl
  induction cs with
  | nil => rfl
  | cons c cs ih =>
    by_cases hc : c = quote
    · simp [doubled, hc, hself, ih]
    · simp [doubled, hc, toUpper_eq_iff hquote, ih]

/-- Whether a text could be a word: letters, numerals, `_` and `$`, the first a letter or `_`. -/
def isWordText (s : String) : Bool :=
  match s.toList with
  | [] => false
  | c :: cs => Lexeme.startsName c && cs.all Lexeme.continuesName

theorem isWordText_iff {s : String} : isWordText s = true ↔
    ∃ c cs, s.toList = c :: cs ∧ Lexeme.startsName c = true ∧
      ∀ d ∈ cs, Lexeme.continuesName d = true := by
  unfold isWordText
  cases s.toList with
  | nil => simp
  | cons c cs => simp [and_assoc]

end Text

/-- Capitals do not matter for the arity of a function. -/
theorem Registry.arity?_upper (r : Registry) (name : String) :
    r.arity? (Text.upper name) = r.arity? name := by
  have hnormal : normalName (Text.upper name) = normalName name := by
    have hcomp : Char.toUpper ∘ Char.toUpper = Char.toUpper := funext Text.toUpper_toUpper
    simp [normalName, Text.upper, Text.trim, Text.trimChars_map_toUpper, hcomp]
  rw [arity?, arity?, hnormal]

namespace Token

/-- How a name is spelled: as a word that is not reserved, or between double quotes. -/
inductive IsName : String → Prop
  | word {s} : Text.isWordText s = true → Keyword.ofText? s = none → IsName s
  | quoted (cs) : IsName (String.ofList ('\x22' :: (Text.doubled '\x22' cs ++ ['\x22'])))

/-- A name starts with a letter, `_` or a double quote. -/
theorem IsName.first {s : String} (h : IsName s) :
    ∃ c cs, s.toList = c :: cs ∧ (Lexeme.startsName c = true ∨ c = '\x22') := by
  cases h with
  | word hword _ =>
    obtain ⟨c, cs, hs, hc, -⟩ := Text.isWordText_iff.mp hword
    exact ⟨c, cs, hs, .inl hc⟩
  | quoted cs => exact ⟨_, _, String.toList_ofList, .inr rfl⟩

theorem startsName_toUpper {c : Char} (h : Lexeme.startsName c = true) :
    Lexeme.startsName c.toUpper = true := by
  simp only [Lexeme.startsName, Bool.or_eq_true, beq_iff_eq] at h ⊢
  obtain h | rfl := h
  · exact .inl (Text.isLetter_toUpper h)
  · exact .inr rfl

theorem continuesName_toUpper {c : Char} (h : Lexeme.continuesName c = true) :
    Lexeme.continuesName c.toUpper = true := by
  rcases Text.toUpper_cases c with ⟨_, h'⟩ | ⟨h₁, h₂, _⟩
  · rwa [h']
  · have hletter : Text.isLetter c = true := Text.isLetter_of_isAlpha
      (Text.isAlpha_iff.mpr (.inr ⟨h₁, h₂⟩))
    simp [Lexeme.continuesName, Text.isLetter_toUpper hletter]

/-- The capitals of a word make up a word. -/
theorem isWordText_upper {s : String} (h : Text.isWordText s = true) :
    Text.isWordText (Text.upper s) = true := by
  obtain ⟨c, cs, hs, hc, hcs⟩ := Text.isWordText_iff.mp h
  refine Text.isWordText_iff.mpr ⟨c.toUpper, cs.map Char.toUpper, ?_, startsName_toUpper hc, ?_⟩
  · rw [Text.upper, String.toList_ofList, hs, List.map_cons]
  · intro d hd
    obtain ⟨e, he, rfl⟩ := List.mem_map.mp hd
    exact continuesName_toUpper (hcs e he)

/-- The capitals of a name make up a name. -/
theorem IsName.upper {s : String} (h : IsName s) : IsName (Text.upper s) := by
  cases h with
  | word hword hfree =>
    refine .word (isWordText_upper hword) ?_
    rwa [Keyword.ofText?, Text.upper_upper]
  | quoted cs =>
    have hquote : ('\x22' : Char).toUpper = '\x22' := rfl
    rw [Text.upper, String.toList_ofList, List.map_cons, List.map_append,
      Text.map_toUpper_doubled (by decide), List.map_singleton, hquote]
    exact .quoted _

/-- No name is spelled like an operator. -/
theorem IsName.not_operator {s : String} (h : IsName s) : s ∉ Operator.texts := by
  intro hmem
  cases h with
  | word hword hfree =>
    have hreserved : ∀ t ∈ Operator.texts, Text.isWordText t = true → Keyword.ofText? t ≠ none := by
      decide
    exact hreserved s hmem hword hfree
  | quoted cs =>
    have hquote : ∀ t ∈ Operator.texts, t.toList.head? ≠ some '\x22' := by
      decide
    exact hquote _ hmem (by rw [String.toList_ofList, List.head?_cons])

/-- How the fraction of a number is spelled. -/
inductive IsFraction : List Char → Prop
  | absent : IsFraction []
  | present {d ds} : (∀ c ∈ d :: ds, c.isDigit = true) → IsFraction ('.' :: d :: ds)

/-- How the exponent of a number is spelled. -/
inductive IsExponent : List Char → Prop
  | absent : IsExponent []
  | present {e signs d ds} : e = 'e' ∨ e = 'E' → signs = [] ∨ signs = ['+'] ∨ signs = ['-'] →
      (∀ c ∈ d :: ds, c.isDigit = true) → IsExponent (e :: (signs ++ d :: ds))

/-- How a number is spelled. -/
inductive IsNumber : String → Prop
  | mk {whole places power} : (∀ c ∈ whole, c.isDigit = true) → IsFraction places →
      IsExponent power → whole ++ places ≠ [] → IsNumber (String.ofList (whole ++ places ++ power))

/-- The text that the kind carries is spelled as it should be. -/
def Kind.Written : Kind → Prop
  | .number text => IsNumber text
  | .name text => IsName text
  | _ => True

end Token

namespace Lexeme

open Token

theorem isDigit_iff {c : Char} : c.isDigit = true ↔ 48 ≤ c.toNat ∧ c.toNat ≤ 57 := by
  simp [Char.isDigit, UInt32.le_iff_toNat_le]

/-- Code points of white space beyond ASCII. -/
def spaces : List Nat :=
  [0x85, 0xA0, 0x1680] ++ List.range' 0x2000 11 ++ [0x2028, 0x2029, 0x202F, 0x205F, 0x3000]

theorem mem_spaces {c : Char} (hspace : Text.isSpace c = true) (hlarge : 128 ≤ c.toNat) :
    c.toNat ∈ spaces := by
  simp [Text.isSpace] at hspace
  have hrange : c.toNat ∈ List.range' 0x2000 11 ↔ 0x2000 ≤ c.toNat ∧ c.toNat < 0x2000 + 11 := by
    rw [List.mem_range'_1]
  simp only [spaces, List.mem_append, hrange, List.mem_cons, List.not_mem_nil, or_false]
  omega

/-- A letter is neither white space nor a digit. -/
theorem isLetter_separate {c : Char} (h : Text.isLetter c = true) :
    Text.isSpace c = false ∧ c.isDigit = false := by
  have hspaces : ∀ n ∈ spaces, Text.inRanges Text.letterRanges n = false := by decide +kernel
  unfold Text.isLetter at h
  split at h
  · rename_i hsmall
    have halpha := Text.isAlpha_iff.mp h
    constructor
    · simp [Text.isSpace]
      omega
    · rw [← Bool.not_eq_true, isDigit_iff]
      omega
  · rename_i hlarge
    constructor
    · rw [← Bool.not_eq_true]
      intro hspace
      rw [hspaces _ (mem_spaces hspace (by omega))] at h
      cases h
    · rw [← Bool.not_eq_true, isDigit_iff]
      omega

theorem startsName_separate {c : Char} (h : startsName c = true) :
    Text.isSpace c = false ∧ c.isDigit = false := by
  simp only [startsName, Bool.or_eq_true, beq_iff_eq] at h
  obtain h | rfl := h
  · exact isLetter_separate h
  · decide

/-- A name is read from the character that starts it. -/
theorem first_of_startsName {c : Char} {cs : List Char} (h : startsName c = true) :
    first c cs = word c cs := by
  unfold first
  split <;> try exact absurd h (by decide)
  rw [if_neg (by simp [(startsName_separate h).2]), if_pos h]

/-- A name starts with no layout. -/
theorem after?_of_startsName {c : Char} {cs : List Char} (h : startsName c = true) :
    Layout.after? .blank c cs = none := by
  have hminus : c ≠ '-' := by
    rintro rfl
    revert h
    decide
  have hslash : c ≠ '/' := by
    rintro rfl
    revert h
    decide
  simp [Layout.after?, (startsName_separate h).1, hminus, hslash]

/-- A number is read from the character that starts it. -/
theorem first_of_number {c : Char} {cs : List Char}
    (h : c.isDigit = true ∨ c = '.' ∧ cs.head?.any Char.isDigit = true) :
    first c cs = number (c :: cs) := by
  obtain hc | ⟨rfl, hdigit⟩ := h
  · unfold first
    split <;> try exact absurd hc (by decide)
    rw [if_pos hc]
  · rw [first, if_pos hdigit]

/-- A number starts with no layout. -/
theorem after?_of_number {c : Char} {cs : List Char}
    (h : c.isDigit = true ∨ c = '.' ∧ cs.head?.any Char.isDigit = true) :
    Layout.after? .blank c cs = none := by
  obtain hc | ⟨rfl, -⟩ := h
  · have hdigit := isDigit_iff.mp hc
    have hspace : Text.isSpace c = false := by
      rw [← Bool.not_eq_true]
      simp [Text.isSpace]
      omega
    have hminus : c ≠ '-' := by
      rintro rfl
      cases hc
    have hslash : c ≠ '/' := by
      rintro rfl
      cases hc
    simp [Layout.after?, hspace, hminus, hslash]
  · rfl

theorem fraction_spelled (cs : List Char) : IsFraction (fraction cs).1 := by
  unfold fraction
  split
  · split
    · rename_i d rest hd
      rw [List.takeWhile_cons_of_pos hd]
      refine .present fun c hc => ?_
      obtain rfl | hc := List.mem_cons.mp hc
      · exact hd
      · exact (List.all_eq_true.mp List.all_takeWhile) c hc
    · exact .absent
  · exact .absent

theorem sign_spelled (cs : List Char) :
    (sign cs).1 = [] ∨ (sign cs).1 = ['+'] ∨ (sign cs).1 = ['-'] := by
  unfold sign
  split <;> simp

theorem exponent_spelled (cs : List Char) : IsExponent (exponent cs).1 := by
  cases cs with
  | nil => exact .absent
  | cons e rest =>
    have hsign := sign_spelled rest
    rw [exponent]
    rcases hrest : sign rest with ⟨signs, digits⟩
    rw [hrest] at hsign
    dsimp only
    split
    · rename_i hcond
      obtain ⟨he, hdigit⟩ := hcond
      cases digits with
      | nil => simp at hdigit
      | cons d ds =>
        have hd : d.isDigit = true := by simpa using hdigit
        rw [List.takeWhile_cons_of_pos hd]
        refine .present he hsign fun c hc => ?_
        obtain rfl | hc := List.mem_cons.mp hc
        · exact hd
        · exact (List.all_eq_true.mp List.all_takeWhile) c hc
    · exact .absent

/-- A digit, or a point and a digit, are the beginning of a number. -/
theorem starts_number {c : Char} {cs : List Char}
    (h : c.isDigit = true ∨ c = '.' ∧ cs.head?.any Char.isDigit = true) :
    (c :: cs).takeWhile Char.isDigit ++ (fraction ((c :: cs).dropWhile Char.isDigit)).1 ≠ [] := by
  obtain hc | ⟨rfl, hdigit⟩ := h
  · simp [hc]
  · cases cs with
    | nil => simp at hdigit
    | cons d ds =>
      have hd : d.isDigit = true := by simpa using hdigit
      simp [fraction, hd, show ('.' : Char).isDigit = false from rfl]

/-- What starts with a digit, or with a point and a digit, is read as a number. -/
theorem number_written {cs : List Char}
    (h : cs.takeWhile Char.isDigit ++ (fraction (cs.dropWhile Char.isDigit)).1 ≠ []) :
    (number cs).kind.Written :=
  .mk (fun c hc => (List.all_eq_true.mp List.all_takeWhile) c hc) (fraction_spelled _)
    (exponent_spelled _) h

theorem word_written {c : Char} (cs : List Char) (hc : startsName c = true) :
    (word c cs).kind.Written := by
  rw [word, wordKind]
  split
  · trivial
  · rename_i h
    refine .word ?_ h
    rw [Text.isWordText, String.toList_ofList]
    simp only [hc, Bool.true_and]
    exact List.all_takeWhile

theorem string_written (cs : List Char) : (string cs).kind.Written := by
  unfold string
  split <;> trivial

theorem quotedName_written (cs : List Char) : (quotedName cs).kind.Written := by
  unfold quotedName
  split
  · rename_i h
    obtain ⟨value, rfl⟩ := Text.cutQuoted?_some h
    exact .quoted value
  · trivial

theorem oneOrTwo_written {c : Char} {one : Token.Kind} (hone : one.Written)
    (longer : List (Char × Symbol)) (cs : List Char) : (oneOrTwo c one longer cs).kind.Written := by
  unfold oneOrTwo
  split
  · exact hone
  · split
    · trivial
    · exact hone

theorem first_written (c : Char) (cs : List Char) : (first c cs).kind.Written := by
  unfold first
  split <;> try trivial
  iterate 5 exact oneOrTwo_written (by trivial) _ _
  · split
    · exact number_written (starts_number (.inr ⟨rfl, ‹_›⟩))
    · trivial
  · exact string_written cs
  · exact quotedName_written cs
  · split
    · exact number_written (starts_number (.inl ‹_›))
    · split
      · exact word_written cs ‹_›
      · trivial

end Lexeme

namespace Scanner

theorem next_written (s : Scanner) : s.next.1.kind.Written := by
  unfold next
  dsimp only
  split
  · trivial
  · exact Lexeme.first_written _ _

theorem tokens_written (limit : Nat) (s : Scanner) :
    ∀ token ∈ (tokens limit s).1, token.kind.Written := by
  induction limit generalizing s with
  | zero => simp [tokens]
  | succ limit ih =>
    rw [tokens]
    dsimp only
    split
    · simp
    · simpa using ⟨next_written s, ih s.next.2⟩

end Scanner

end SqlFront
