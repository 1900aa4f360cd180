import SqlFront.Proofs.Answers
import SqlFront.Proofs.Decimals
import SqlFront.Proofs.Tiling

/-! # Numbers in a text

A number takes as many characters as it can, and whatever it takes can be read as a number. Main
statement: every token for a number is the longest number where it stands and has a value, so that
evaluation of an expression that was read never complains of a number that it is none.
-/

namespace SqlFront

/-! ## The longest number -/

/-- The longest number that a row of characters begins with. -/
structure Token.LongestNumber (s : String) (cs : List Char) : Prop where
  spelled : IsNumber s
  here : s.toList <+: cs
  longest : ∀ n, IsNumber n → n.toList <+: cs → n.length ≤ s.length

namespace Lexeme

open Token

/-- A number at the front of a text is read, and perhaps more than that. -/
theorem number_extends {n : String} (h : IsNumber n) (rest : List Char) :
    n.toList <+: (number (n.toList ++ rest)).chars := by
  obtain @⟨whole, places, power, hwhole, hplaces, hpower, -⟩ := h
  rw [String.toList_ofList]
  simp only [List.append_assoc]
  -- The last part that is there goes on with the digits behind it, and those before it end.
  cases hpower with
  | @present e signs d ds he hsigns hdigits =>
    have hletter : ∀ c ∈ (e :: (signs ++ d :: ds) ++ rest).head?, c.isDigit = false ∧ c ≠ '.' := by
      intro c hc
      obtain rfl := Option.some.inj hc
      exact exponent_letter he
    obtain ⟨htake, hdrop⟩ := takeWhile_digits hwhole (hplaces.head fun c hc => (hletter c hc).1)
    rw [number, htake, hdrop, fraction_append_of hplaces hletter]
    dsimp only
    rw [exponent_present he hsigns hdigits]
    exact ⟨rest.takeWhile Char.isDigit, by simp⟩
  | absent =>
    cases hplaces with
    | @present d ds hdigits =>
      have hpoint : ∀ c ∈ ('.' :: d :: ds ++ rest).head?, c.isDigit = false := by simp
      obtain ⟨htake, hdrop⟩ := takeWhile_digits hwhole hpoint
      rw [List.nil_append, number, htake, hdrop, fraction_present hdigits]
      exact ⟨rest.takeWhile Char.isDigit ++ (exponent (rest.dropWhile Char.isDigit)).1, by simp⟩
    | absent =>
      rw [List.nil_append, number, List.takeWhile_append_of_pos hwhole]
      simp only [List.append_assoc, List.append_nil]
      exact List.prefix_append ..

/-- A token for a number is a number that was read. -/
theorem first_number {c : Char} {cs : List Char} {s : String} (h : (first c cs).kind = .number s) :
    IsNumber s ∧ (first c cs).chars = s.toList ∧ first c cs = number (c :: cs) := by
  have hspelled := first_written c cs
  have hchars := first_standsOn c cs
  have happend := first_append c cs
  rw [h] at hspelled hchars
  obtain ⟨d, ds, hds, hstart⟩ := IsNumber.start hspelled (first c cs).rest
  rw [hchars, hds] at happend
  obtain ⟨rfl, rfl⟩ := List.cons.inj happend
  exact ⟨hspelled, hchars, first_of_number hstart⟩

/-- A token for a number is the longest one where it stands. -/
theorem first_longest {c : Char} {cs : List Char} {s : String} (h : (first c cs).kind = .number s) :
    LongestNumber s (c :: cs) := by
  obtain ⟨hspelled, hchars, hnumber⟩ := first_number h
  refine ⟨hspelled, ⟨_, hchars ▸ first_append c cs⟩, ?_⟩
  rintro n hn ⟨rest, hrest⟩
  have hextends := number_extends hn rest
  rw [hrest, ← hnumber, hchars] at hextends
  simpa only [String.length_toList] using hextends.length_le

end Lexeme

namespace Scanner

/-- Every token is the one at the front of the text from its first character on. -/
theorem Cuts.first {s last : Scanner} {ts : List Token} {text : String} (h : s.Cuts ts last)
    (hs : s.In text) : ∀ t ∈ ts, ∃ front c cs, text.toList = front ++ c :: cs ∧
      t = ⟨(Lexeme.first c cs).kind,
        ⟨Text.byteLength front, Text.byteLength (front ++ (Lexeme.first c cs).chars)⟩⟩ := by
  induction h with
  | finish => exact nofun
  | token hne _ ih =>
    obtain ⟨_, _, -, -, -, hin, -⟩ := hs.next hne
    obtain ⟨front, gap, c, cs, htext, -, -, -, htoken, -⟩ := hs.next_first hne
    refine List.forall_mem_cons.mpr ⟨⟨front ++ gap, c, cs, ?_, htoken⟩, ih hin⟩
    rw [htext, List.append_assoc]

end Scanner

/-- A token for a number covers the longest number where it stands. -/
theorem Token.number_longest {text : String} {token : Token} (h : token ∈ tokenize text) {s : String}
    (hs : token.kind = .number s) : ∃ front back, text.toList = front ++ back ∧
      token.span = ⟨Text.byteLength front, Text.byteLength (front ++ s.toList)⟩ ∧
      LongestNumber s back := by
  have hcuts := Scanner.cuts_tokens (s := Scanner.start text) (Nat.le_of_eq String.length_toList)
  obtain ⟨-, -, -, heof⟩ := tiles_of_cuts hcuts (Scanner.in_start text)
  obtain h | h := List.mem_append.mp h
  · obtain ⟨front, c, cs, htext, rfl⟩ := hcuts.first (Scanner.in_start text) token h
    obtain ⟨-, hchars, -⟩ := Lexeme.first_number hs
    exact ⟨front, c :: cs, htext, by rw [hchars], Lexeme.first_longest hs⟩
  · obtain rfl := List.mem_singleton.mp h
    cases hs.symm.trans heof

/-- What is spelled as a number has a value. -/
theorem Token.IsNumber.value {s : String} (h : IsNumber s) : ∃ x, Decimal.read? s = some x :=
  Option.isSome_iff_exists.mp
    ((Decimal.read?_isSome_iff s).mpr (Decimal.readable_of_isNumber h))

/-! ## The numbers of an expression -/

namespace Eval

variable {row : Row}

/-- Operations have numbers for values, so that a text is the value of a constant. -/
theorem constant_of_text {e : Expr} {t : String} (h : value row e = .ok (.text t)) :
    ∃ k, e = .constant k := by
  cases e with
  | constant k => exact ⟨k, rfl⟩
  | operation op =>
    rw [value] at h
    cases harithmetic : arithmetic row op.operator op.operands <;> rw [harithmetic] at h <;> cases h
  | query | placeholder =>
    rw [value] at h
    cases h

/-- A constant of the expression that is no number stands for the text. -/
def NoNumber (row : Row) (e : Expr) (t : String) : Prop :=
  ∃ k, k.kind ≠ .number ∧ e.Holds (.constant k) ∧ value row (.constant k) = .ok (.text t)

/-- A constant that is a number and spelled as one has a number for its value. -/
theorem constant_number (row : Row) {k : Constant} (h : k.Form) (hkind : k.kind = .number) :
    ∃ x, constantValue row k = .ok (.number x) := by
  cases h with
  | @number s hs =>
    obtain ⟨x, hx⟩ := hs.value
    exact ⟨x, by simp [constantValue, hx]⟩
  | star | column | null | string => cases hkind

/-- No constant that was read fails to be numeric: a number has a value, and others are not asked. -/
theorem constantValue_numeric {k : Constant} (h : k.Form) (t : String) :
    constantValue row k ≠ .error (.notNumeric t) := by
  by_cases hkind : k.kind = .number
  · obtain ⟨x, hx⟩ := constant_number row h hkind
    rw [hx]
    exact nofun
  · unfold constantValue
    split
    · split <;> exact nofun
    · exact absurd ‹_› hkind
    · exact nofun
    · exact nofun

/-- Where a number is asked for in what was read and there is none, there is another constant. -/
theorem allows_noNumber {r : Registry} {e : Expr} (he : e.Formed r) :
    Allows (fun cause => ∀ t, cause = .notNumeric t → NoNumber row e t) row e where
  constant k hk := by
    rintro _ hcause t rfl
    cases he.holds hk with
    | constant hform => exact absurd hcause (constantValue_numeric hform t)
  text x t hx hvalue := by
    rintro _ ⟨rfl⟩
    obtain ⟨k, rfl⟩ := constant_of_text hvalue
    refine ⟨k, ?_, hx, hvalue⟩
    intro hkind
    cases he.holds hx with
    | constant hform =>
      obtain ⟨x, hnumber⟩ := constant_number row hform hkind
      rw [value, hnumber] at hvalue
      cases hvalue
  empty _ _ _ := nofun
  meaning cause hcause := by
    rintro t rfl
    cases hcause

end Eval

/-- Every token for a number is the longest number where it stands, and its text has a value, as every
    text of such a form has and no other. In an expression that is read at any place of a text, every
    number has a value over every row, and a text that evaluation finds to be no number is that of
    another constant of the expression. -/
theorem numbers_longest_and_numeric (r : Registry) (text : String) :
    (∀ token ∈ Token.tokenize text, ∀ s, token.kind = .number s →
      (∃ x, Decimal.read? s = some x) ∧ ∃ front back, text.toList = front ++ back ∧
        token.span = ⟨Text.byteLength front, Text.byteLength (front ++ s.toList)⟩ ∧
        Token.LongestNumber s back) ∧
    (∀ s, (Decimal.read? s).isSome = true ↔ Decimal.Readable s.toList) ∧
    ∀ c e, (Cursor.ofText text).Reaches c → (Grammar.condition r c).1 = .ok e → ∀ row,
      (∀ s, e.Holds (.number s) → ∃ x, Eval.value row (.number s) = .ok (.number x)) ∧
      ∀ t, Eval.condition row e = .error (.notNumeric t) ∨ Eval.value row e = .error (.notNumeric t) →
        ∃ k, k.kind ≠ .number ∧ e.Holds (.constant k) ∧
          Eval.value row (.constant k) = .ok (.text t) := by
  refine ⟨?_, Decimal.read?_isSome_iff, ?_⟩
  · intro token htoken s hs
    obtain ⟨front, back, htext, hspan, hlongest⟩ := Token.number_longest htoken hs
    exact ⟨hlongest.spelled.value, front, back, htext, hspan, hlongest⟩
  · intro c e hc he row
    have hformed := (Grammar.condition_free hc (Prod.ext he rfl)).1
    constructor
    · intro s hs
      cases hformed.holds hs with
      | constant hform =>
        obtain ⟨x, hx⟩ := Eval.constant_number row hform rfl
        exact ⟨x, by rw [Expr.number, Eval.value, hx]⟩
    · intro t hcause
      obtain h | h := hcause
      · exact Eval.condition_fails hformed (Eval.allows_noNumber hformed) _ h t rfl
      · exact Eval.value_fails (Eval.allows_noNumber hformed) _ h t rfl

theorem numbers_longest_and_numeric_powers :
    ∃ e, (Grammar.condition Registry.builtin (Cursor.ofText "b - 'x' < .5E+07; 2.e+")).1 = .ok e ∧
      (∃ front back, "b - 'x' < .5E+07; 2.e+".toList = front ++ back ∧
        Text.byteLength front = 18 ∧ Token.LongestNumber "2" back) ∧
      (∃ x, Eval.value ((Row.ofHeader "a,b").setLine "1,2") (.number ".5E+07") = .ok (.number x)) ∧
      Eval.condition ((Row.ofHeader "a,b").setLine "1,2") e = .error (.notNumeric "x") ∧
      ∃ k, k.kind ≠ .number ∧ e.Holds (.constant k) ∧
        Eval.value ((Row.ofHeader "a,b").setLine "1,2") (.constant k) = .ok (.text "x") := by
  obtain ⟨e, heq⟩ : ∃ e, e = (Expr.binary Operator.minus (.column "b") (.string "x")).less
      (.number ".5E+07") := ⟨_, rfl⟩
  have hread : (Grammar.condition Registry.builtin
      (Cursor.ofText "b - 'x' < .5E+07; 2.e+")).1.toOption = some e := by
    rw [heq]
    decide +kernel
  have hcause : Eval.condition ((Row.ofHeader "a,b").setLine "1,2") e = .error (.notNumeric "x") := by
    rw [heq]
    decide +kernel
  have hholds : e.Holds (.number ".5E+07") := by
    rw [heq]
    exact .child .self (List.mem_cons_of_mem _ List.mem_cons_self)
  have htoken : (⟨.number "2", ⟨18, 19⟩⟩ : Token) ∈ Token.tokenize "b - 'x' < .5E+07; 2.e+" := by
    decide +kernel
  have he := ok_of_toOption hread
  obtain ⟨htokens, -, hnumbers⟩ :=
    numbers_longest_and_numeric Registry.builtin "b - 'x' < .5E+07; 2.e+"
  obtain ⟨-, front, back, htext, hspan, hlongest⟩ := htokens _ htoken "2" rfl
  obtain ⟨hvalues, hcauses⟩ := hnumbers _ e (.refl _) he ((Row.ofHeader "a,b").setLine "1,2")
  exact ⟨e, he, ⟨front, back, htext, (congrArg Span.start hspan).symm, hlongest⟩, hvalues _ hholds,
    hcause, hcauses "x" (.inl hcause)⟩

end SqlFront
